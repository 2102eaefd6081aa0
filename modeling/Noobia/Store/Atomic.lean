import Noobia.Lib.Bytes
import Noobia.Lib.Crash

/-!
# Replacing a file in one go

The card has no operation that replaces the contents of a file at once.  `atomicWrite` puts the new
contents in a file beside the old one, moves the old one out of the way, and moves the new one in;
`recoverFile`, at the next boot, puts back a file that was moved away and not replaced.

What a file *holds*, for this protocol, is therefore not what is found under its path but what
`recoverFile` would put there: `recovered`.  Recovering does not change it, however often it is
interrupted, and an `atomicWrite` changes it once, at the rename that installs the new file.
-/

open Function

namespace Noobia

/-- The card: paths are byte strings, and so are the contents of files. -/
abbrev Card := Files Bytes UInt8

/-- A procedure of the program store. -/
abbrev CardIo (α : Type) := Proc (Powered Card) α

namespace CardIo

open Crash

/-- `storage.remove(path)`. -/
def remove (path : Bytes) : CardIo Bool := op (Files.remove path)

/-- `storage.open(path, FILE_WRITE)`. -/
def create (path : Bytes) : CardIo Bool := op (Files.create path)

/-- `file.write(data, length)`, on a file just opened. -/
def write (path data : Bytes) : CardIo Nat := op (Files.write path data)

/-- `storage.rename(path, path')`. -/
def rename (path path' : Bytes) : CardIo Bool := op (Files.rename path path')

/-- `storage.exists(path)`. -/
def present (path : Bytes) : CardIo Bool := look fun d ↦ (d path).isSome

end CardIo

/-- `path + ".tmp"`. -/
def temporary (path : Bytes) : Bytes := path ++ Bytes.ofAscii ".tmp"

/-- `path + ".bak"`. -/
def backup (path : Bytes) : Bytes := path ++ Bytes.ofAscii ".bak"

open CardIo in
def atomicWrite (path data : Bytes) : CardIo (Except String Unit) := do
  let _ ← remove (temporary path)
  let file ← create (temporary path)
  if file = false then pure (.error ("cannot create " ++ (temporary path).render)) else do
  let written ← write (temporary path) data
  if written ≠ data.length then do
    let _ ← remove (temporary path)
    pure (.error ("short write " ++ toString written ++ "/" ++ toString data.length)) else do
  let _ ← remove (backup path)
  let hadPrevious ← present path
  let preserved ← if hadPrevious then rename path (backup path) else pure true
  if preserved = false then do
    let _ ← remove (temporary path)
    pure (.error ("cannot preserve previous " ++ path.render)) else do
  let installed ← rename (temporary path) path
  if installed = false then do
    let _ ← if hadPrevious then rename (backup path) path else pure true
    pure (.error ("cannot install " ++ path.render)) else do
  let _ ← remove (backup path)
  pure (.ok ())

open CardIo in
def recoverFile (path : Bytes) : CardIo Unit := do
  let _ ← remove (temporary path)
  let found ← present path
  let saved ← present (backup path)
  if found = false ∧ saved = true then do
    let _ ← rename (backup path) path
    pure ()
  else do
    let _ ← remove (backup path)
    pure ()

/-! ## The three files of a path -/

/-- What `recoverFile` will find the file to hold. -/
def recovered (d : Card) (path : Bytes) : Option Bytes := (d path).or (d (backup path))

/-- Nothing is left of an earlier write. -/
structure Clean (d : Card) (path : Bytes) : Prop where
  temporary : d (temporary path) = none
  backup : d (backup path) = none

variable {d d' : Card} {path other : Bytes}

theorem Clean.recovered (h : Clean d path) : recovered d path = d path := by
  rw [Noobia.recovered, h.backup, Option.or_none]

/-- The two cards differ at most in the files of the path. -/
def SameBut (path : Bytes) (d d' : Card) : Prop :=
  ∀ other, other ≠ path → other ≠ temporary path → other ≠ backup path → d' other = d other

/-- Two paths have no file in common. -/
def Apart (path other : Bytes) : Prop :=
  ∀ a ∈ [path, temporary path, backup path], ∀ b ∈ [other, temporary other, backup other], a ≠ b

theorem Apart.symm (h : Apart path other) : Apart other path :=
  fun b hb a ha ↦ (h a ha b hb).symm

/-- It does not matter what directory the paths are in. -/
theorem Apart.append (directory : Bytes) (h : Apart path other) :
    Apart (directory ++ path) (directory ++ other) := by
  simpa [Apart, temporary, backup] using h

theorem SameBut.eq (h : SameBut path d d') (hapart : Apart path other) {file : Bytes}
    (hfile : file ∈ [other, temporary other, backup other]) : d' file = d file :=
  h file (hapart _ (by simp) _ hfile).symm (hapart _ (by simp) _ hfile).symm
    (hapart _ (by simp) _ hfile).symm

theorem SameBut.recovered (h : SameBut path d d') (hapart : Apart path other) :
    recovered d' other = recovered d other := by
  rw [Noobia.recovered, h.eq hapart (by simp), h.eq hapart (by simp), Noobia.recovered]

theorem SameBut.clean (h : SameBut path d d') (hapart : Apart path other) (hclean : Clean d other) :
    Clean d' other :=
  ⟨(h.eq hapart (by simp)).trans hclean.temporary, (h.eq hapart (by simp)).trans hclean.backup⟩

variable {path : Bytes}

theorem temporary_ne_self : temporary path ≠ path :=
  fun h ↦ absurd (congrArg List.length h) (by simp [temporary, Bytes.ofAscii])

theorem backup_ne_self : backup path ≠ path :=
  fun h ↦ absurd (congrArg List.length h) (by simp [backup, Bytes.ofAscii])

theorem temporary_ne_backup : temporary path ≠ backup path :=
  fun h ↦ absurd (List.append_cancel_left h) (by decide)

/-- A card as far as one path is concerned: the three files, and the rest as on `base`. -/
structure Shows (base : Card) (path : Bytes) (main tmp bak : Option Bytes) (d : Card) : Prop where
  main : d path = main
  tmp : d (temporary path) = tmp
  bak : d (backup path) = bak
  rest : SameBut path base d

namespace Shows

open Crash CardIo

variable {base d : Card} {main tmp bak : Option Bytes} {α : Type} {C : Card → Prop}
  {Q : α → Card → Prop}

theorem self (d : Card) (path : Bytes) :
    Shows d path (d path) (d (temporary path)) (d (backup path)) d :=
  ⟨rfl, rfl, rfl, fun _ _ _ _ ↦ rfl⟩

theorem recovered (h : Shows base path main tmp bak d) : recovered d path = main.or bak := by
  rw [Noobia.recovered, h.main, h.bak]

theorem clean (h : Shows base path main none none d) : Clean d path := ⟨h.tmp, h.bak⟩

section

variable (h : Shows base path main tmp bak d)

include h

variable (v : Option Bytes) {k : Bool → CardIo α}

theorem setMain : Shows base path v tmp bak (Function.update d path v) where
  main := update_self ..
  tmp := (update_of_ne temporary_ne_self ..).trans h.tmp
  bak := (update_of_ne backup_ne_self ..).trans h.bak
  rest other h1 h2 h3 := (update_of_ne h1 ..).trans (h.rest other h1 h2 h3)

theorem setTmp : Shows base path main v bak (Function.update d (temporary path) v) where
  main := (update_of_ne temporary_ne_self.symm ..).trans h.main
  tmp := update_self ..
  bak := (update_of_ne temporary_ne_backup.symm ..).trans h.bak
  rest other h1 h2 h3 := (update_of_ne h2 ..).trans (h.rest other h1 h2 h3)

theorem setBak : Shows base path main tmp v (Function.update d (backup path) v) where
  main := (update_of_ne backup_ne_self.symm ..).trans h.main
  tmp := (update_of_ne temporary_ne_backup ..).trans h.tmp
  bak := update_self ..
  rest other h1 h2 h3 := (update_of_ne h3 ..).trans (h.rest other h1 h2 h3)

/-! ### A rule for each operation

Each of them takes the three files before the operation to the three files after it; `C` has to hold
before, which is where the power may fail. -/

theorem removeTmp (hC : C d) (hk : ∀ r d', Shows base path main none bak d' → Safe (k r) C Q d') :
    Safe (remove (temporary path) >>= k) C Q d :=
  safe_op_bind hC (hk _ _ (h.setTmp none))

theorem removeBak (hC : C d) (hk : ∀ r d', Shows base path main tmp none d' → Safe (k r) C Q d') :
    Safe (remove (backup path) >>= k) C Q d :=
  safe_op_bind hC (hk _ _ (h.setBak none))

theorem removeMain (hC : C d) (hk : ∀ r d', Shows base path none tmp bak d' → Safe (k r) C Q d') :
    Safe (remove path >>= k) C Q d :=
  safe_op_bind hC (hk _ _ (h.setMain none))

theorem createTmp (hC : C d)
    (hk : ∀ d', Shows base path main (some []) bak d' → Safe (k true) C Q d') :
    Safe (create (temporary path) >>= k) C Q d :=
  safe_op_bind hC (hk _ (h.setTmp (some [])))

end

variable {data : Bytes} {k : Bool → CardIo α}

theorem writeTmp {k : Nat → CardIo α} (h : Shows base path main (some []) bak d) (hC : C d)
    (hk : ∀ d', Shows base path main (some data) bak d' → Safe (k data.length) C Q d') :
    Safe (write (temporary path) data >>= k) C Q d := by
  refine safe_op_bind hC (hk _ ?_)
  rw [Files.write, h.tmp]
  exact h.setTmp (some data)

theorem moveAway (h : Shows base path (some data) tmp none d) (hC : C d)
    (hk : ∀ d', Shows base path none tmp (some data) d' → Safe (k true) C Q d') :
    Safe (rename path (backup path) >>= k) C Q d := by
  refine safe_op_bind hC ?_
  rw [Files.rename_of_some h.main h.bak]
  exact hk _ ((h.setMain none).setBak (some data))

theorem install (h : Shows base path none (some data) bak d) (hC : C d)
    (hk : ∀ d', Shows base path (some data) none bak d' → Safe (k true) C Q d') :
    Safe (rename (temporary path) path >>= k) C Q d := by
  refine safe_op_bind hC ?_
  rw [Files.rename_of_some h.tmp h.main]
  exact hk _ ((h.setTmp none).setMain (some data))

theorem putBack (h : Shows base path none tmp (some data) d) (hC : C d)
    (hk : ∀ d', Shows base path (some data) tmp none d' → Safe (k true) C Q d') :
    Safe (rename (backup path) path >>= k) C Q d := by
  refine safe_op_bind hC ?_
  rw [Files.rename_of_some h.bak h.main]
  exact hk _ ((h.setBak none).setMain (some data))

theorem removeAll {k : CardIo α} (h : Shows base path main none none d) (hC : C d)
    (hC' : ∀ d', Shows base path none none none d' → C d')
    (hk : ∀ d', Shows base path none none none d' → Safe k C Q d') :
    Safe (do
      let _ ← remove path
      let _ ← remove (temporary path)
      let _ ← remove (backup path)
      k) C Q d :=
  h.removeMain hC fun _ d₁ h₁ ↦ h₁.removeTmp (hC' d₁ h₁) fun _ d₂ h₂ ↦
    h₂.removeBak (hC' d₂ h₂) fun _ d₃ h₃ ↦ hk d₃ h₃

end Shows

/-! ## What the two procedures do, power cuts included -/

open Crash

/-- **Recovery can be interrupted.**  Wherever the power fails, the file still holds what it held;
and if it does not, the file is there and nothing else is. -/
theorem recoverFile_safe (path : Bytes) (d : Card) :
    Safe (recoverFile path) (fun d' ↦ recovered d' path = recovered d path ∧ SameBut path d d')
      (fun _ d' ↦ d' path = recovered d path ∧ Clean d' path ∧ SameBut path d d') d := by
  have h := Shows.self d path
  refine h.removeTmp ⟨rfl, h.rest⟩ fun _ d₁ h₁ ↦ ?_
  refine safe_look_bind (safe_look_bind ?_)
  rw [h₁.main, h₁.bak, h.recovered]
  cases hmain : d path with
  | some data =>
    rw [hmain] at h₁
    refine h₁.removeBak ⟨h₁.recovered, h₁.rest⟩ fun _ d₂ h₂ ↦ safe_pure ?_
    exact ⟨h₂.main, h₂.clean, h₂.rest⟩
  | none =>
    rw [hmain] at h₁
    cases hbak : d (backup path) with
    | some data =>
      rw [hbak] at h₁
      refine h₁.putBack ⟨h₁.recovered, h₁.rest⟩ fun d₂ h₂ ↦ safe_pure ?_
      exact ⟨h₂.main, h₂.clean, h₂.rest⟩
    | none =>
      rw [hbak] at h₁
      refine h₁.removeBak ⟨h₁.recovered, h₁.rest⟩ fun _ d₂ h₂ ↦ safe_pure ?_
      exact ⟨h₂.main, h₂.clean, h₂.rest⟩

/-- **A file is replaced at once.**  On a clean card, wherever the power fails, the file holds its
old contents or the new ones; and if it does not, it holds the new ones and the card is clean. -/
theorem atomicWrite_safe {d : Card} (hclean : Clean d path) (data : Bytes) :
    Safe (atomicWrite path data)
      (fun d' ↦ (recovered d' path = d path ∨ recovered d' path = some data) ∧ SameBut path d d')
      (fun r d' ↦ r = .ok () ∧ d' path = some data ∧ Clean d' path ∧ SameBut path d d') d := by
  have h := Shows.self d path
  rw [hclean.backup] at h
  have hold {tmp : Option Bytes} {d' : Card} (h' : Shows d path (d path) tmp none d') :
      (recovered d' path = d path ∨ recovered d' path = some data) ∧ SameBut path d d' :=
    ⟨.inl (by rw [h'.recovered, Option.or_none]), h'.rest⟩
  refine h.removeTmp (hold h) fun _ d₁ h₁ ↦ h₁.createTmp (hold h₁) fun d₂ h₂ ↦ ?_
  refine h₂.writeTmp (hold h₂) fun d₃ h₃ ↦ ?_
  rw [if_neg (not_not.mpr rfl)]
  refine h₃.removeBak (hold h₃) fun _ d₄ h₄ ↦ safe_look_bind ?_
  rw [h₄.main]
  cases hmain : d path with
  | none =>
    rw [hmain] at h₄ hold
    refine safe_bind (safe_pure (h₄.install (hold h₄) fun d₅ h₅ ↦ ?_))
    refine h₅.removeBak ⟨.inr h₅.recovered, h₅.rest⟩ fun _ d₆ h₆ ↦ safe_pure ?_
    exact ⟨rfl, h₆.main, h₆.clean, h₆.rest⟩
  | some previous =>
    rw [hmain] at h₄ hold
    refine h₄.moveAway (hold h₄) fun d₅ h₅ ↦ ?_
    refine h₅.install ⟨.inl h₅.recovered, h₅.rest⟩ fun d₆ h₆ ↦ ?_
    refine h₆.removeBak ⟨.inr h₆.recovered, h₆.rest⟩ fun _ d₇ h₇ ↦ safe_pure ?_
    exact ⟨rfl, h₇.main, h₇.clean, h₇.rest⟩

end Noobia
