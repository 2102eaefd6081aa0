import Noobia.Lib.Digits

/-!
# The paths of the editor

The editor opens and saves files by a name that comes from the client.  `safe_path` puts the shell's
working directory in front of it, unless the name could lead out of that directory.
-/

namespace Noobia.Wisp

open List Bytes

/-- The loop of `safe_path`, with what is left of the name. -/
def scanPath (p : Bytes) : Bool :=
  if p = [] then true
  else
    let p' := p.dropWhile (· = 47)
    let word := p'.takeWhile (· ≠ 47)
    if word = ofAscii ".." ∨ word = [] then false else scanPath (p'.dropWhile (· ≠ 47))
termination_by p.length
decreasing_by
  rename_i hword
  have hpos : 0 < word.length := length_pos_of_ne_nil (not_or.mp hword).2
  have hle : p'.length ≤ p.length := (dropWhile_sublist _).length_le
  have hsplit : (word ++ p'.dropWhile (· ≠ 47)).length = p'.length :=
    congrArg length takeWhile_append_dropWhile
  rw [length_append] at hsplit
  show (p'.dropWhile (· ≠ 47)).length < p.length
  omega

/-- `safe_path`, in that working directory if it is known. -/
def safePath (cwd : Option Bytes) (name : Bytes) : Option Bytes :=
  if name.isEmpty || name.head? = some 47 then none
  else cwd.bind fun cwd ↦
    let out := cwd ++ 47 :: name
    if !scanPath name || 4096 ≤ out.length then none else some out

/-- Where one component of a path leads. -/
def enter (dirs : List Bytes) (word : Bytes) : List Bytes :=
  if word = [] ∨ word = ofAscii "." then dirs
  else if word = ofAscii ".." then dirs.dropLast
  else dirs ++ [word]

/-- Where a path leads by its text alone. -/
def resolve (path : Bytes) : List Bytes := (path.splitOn 47).foldl enter []

theorem scanPath_iff {p : Bytes} (hp : p ≠ []) :
    scanPath p = true ↔ ofAscii ".." ∉ p.splitOn 47 ∧ p.getLast? ≠ some 47 := by
  have hslash (rest : Bytes) : (47 :: rest).splitOn 47 = [] :: rest.splitOn 47 :=
    splitOn_append_cons_self [] rest
  have hdots : ofAscii ".." ≠ [] := by decide
  induction hn : p.length using Nat.strong_induction_on generalizing p with | _ n ih =>
  obtain ⟨c, p, rfl⟩ := exists_cons_of_ne_nil hp
  by_cases hc : c = 47
  · subst hc
    by_cases hnil : p = []
    · simp [scanPath, hnil]
    have hscan : scanPath (47 :: p) = scanPath p := by
      rw [scanPath, scanPath.eq_def p]
      simp [hnil]
    have hp : _ ↔ _ := ih p.length (by simp [← hn]) hnil rfl
    rw [hscan, hp, hslash, mem_cons, getLast?_cons_of_ne_nil hnil]
    tauto
  have hscan : scanPath (c :: p) = true ↔ c :: p.takeWhile (· ≠ 47) ≠ ofAscii ".." ∧
      scanPath (p.dropWhile (· ≠ 47)) = true := by
    rw [scanPath]
    simp [hc]
  have hword : 47 ∉ c :: p.takeWhile (· ≠ 47) := by
    simpa [eq_comm, hc] using fun h ↦ by simpa using mem_takeWhile_imp h
  have hsplit := takeWhile_append_dropWhile (p := (· ≠ 47)) (l := p)
  rw [hscan]
  generalize p.takeWhile (· ≠ 47) = word at hword hsplit
  cases hrest : p.dropWhile (· ≠ 47) with
  | nil =>
    rw [hrest, append_nil] at hsplit
    subst hsplit
    have hlast : (c :: word).getLast? ≠ some 47 := fun h ↦ hword (mem_of_getLast? h)
    rw [splitOn_eq_singleton hword, scanPath, mem_singleton]
    tauto
  | cons d rest =>
    have hd := head_dropWhile_not (p := (· ≠ 47)) (l := p) (by rw [hrest]; simp)
    simp only [hrest, head_cons, decide_eq_false_iff_not, not_not] at hd
    rw [hrest, hd] at hsplit
    have hp : _ ↔ _ := ih (rest.length + 1) (by simp [← hn, ← hsplit]) (cons_ne_nil 47 rest) rfl
    rw [hd, hp, ← hsplit, ← cons_append, hslash, splitOn_append_cons_self_of_not_mem hword,
      getLast?_append_cons, mem_cons, mem_cons]
    tauto

theorem isPrefix_foldl_enter {words : List Bytes} (h : ofAscii ".." ∉ words) (dirs : List Bytes) :
    dirs <+: words.foldl enter dirs := by
  induction words generalizing dirs with
  | nil => exact List.prefix_rfl
  | cons word words ih =>
    rw [mem_cons, not_or] at h
    refine IsPrefix.trans ?_ (ih h.2 (enter dirs word))
    rw [enter, if_neg (Ne.symm h.1)]
    split
    · exact List.prefix_rfl
    · exact List.prefix_append ..

/-- **The editor stays in the shell's directory.**  A name is accepted if it is relative, fits, has
no component `..` and does not end in a slash; it then leads to that directory or below. -/
theorem safePath_confined (cwd name : Bytes) :
    let out := cwd ++ 47 :: name
    (safePath (some cwd) name = some out ↔ name ≠ [] ∧ name.head? ≠ some 47 ∧
      ofAscii ".." ∉ name.splitOn 47 ∧ name.getLast? ≠ some 47 ∧ out.length < 4096) ∧
    ∀ path ∈ safePath (some cwd) name, path = out ∧ resolve cwd <+: resolve path := by
  intro out
  by_cases hnil : name = []
  · simp [safePath, hnil]
  have hscan := scanPath_iff hnil
  have hmem (path : Bytes) : path ∈ safePath (some cwd) name ↔ name.head? ≠ some 47 ∧
      scanPath name = true ∧ out.length < 4096 ∧ out = path := by
    simp [safePath, hnil, out, and_assoc]
  refine ⟨by simp [← Option.mem_def, hmem, hscan, hnil, and_assoc], fun path hpath ↦ ?_⟩
  obtain ⟨-, hsafe, -, rfl⟩ := (hmem path).mp hpath
  refine ⟨rfl, ?_⟩
  rw [resolve, resolve, splitOn_append_cons_self, foldl_append]
  exact isPrefix_foldl_enter (hscan.mp hsafe).1 _

end Noobia.Wisp
