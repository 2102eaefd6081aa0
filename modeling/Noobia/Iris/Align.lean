import Noobia.Lib.Matching

/-!
# How much of a replayed capture comes back

`IrisIrCaptureThread::verifyLast` replays the last capture, captures what comes back, and counts how
many pulses of the one can be found in the other, in order.  It fills a table of which it keeps two
rows: in each round the older one is written over, and for the second tolerance both are used again
as the first has left them.

`aligned_largest` says that the count is the size of the largest matching.  What is in the rows
before does not matter.
-/

namespace Noobia.IrisIrCaptureThread

open Matching

/-- A pulse: a cell of `levels_` and one of `durationsUs_`. -/
structure Pulse where
  level : UInt8
  durationUs : Nat

/-- `rowA` and `rowB`. -/
abbrev Rows := Bool → Nat → Nat

/-- An assignment to a cell, which has 16 bits. -/
def Rows.set (rows : Rows) (row : Bool) (index value : Nat) : Rows :=
  Function.update rows row (Function.update (rows row) index (value % 2 ^ 16))

/-- The cell for a source and a target, from the cells on the diagonal, above and to the left. -/
def alignCell (alike : Prop) [Decidable alike] (diagonal above left : Nat) : Nat :=
  if alike then diagonal + 1 else if left < above then above else left

section

variable (sent received : Nat → Pulse) (lastPulses observed toleranceUs : Nat)

/-- The condition in the inner loop. -/
def Compatible (source target : Nat) : Prop :=
  let sourceUs := (sent source).durationUs
  let targetUs := (received target).durationUs
  (sent source).level = (received target).level ∧
    (if targetUs < sourceUs then sourceUs - targetUs else targetUs - sourceUs) ≤ toleranceUs
  deriving Decidable

/-- The inner loop, as far as some target.  `previous` says which row that is. -/
def alignTargets (source : Nat) (previous : Bool) : Nat → Rows → Rows
  | 0, rows => rows
  | target + 1, rows =>
    let rows := alignTargets source previous target rows
    rows.set (!previous) (target + 1)
      (alignCell (Compatible sent received toleranceUs source target)
        (rows previous target) (rows previous (target + 1)) (rows (!previous) target))

/-- The outer loop, as far as some source. -/
def alignSources : Nat → Rows → Bool × Rows
  | 0, rows => (false, rows)
  | source + 1, rows =>
    let (previous, rows) := alignSources source rows
    (!previous, alignTargets sent received toleranceUs source previous observed
      (rows.set (!previous) 0 0))

def alignedPulses (rows : Rows) : Nat × Rows :=
  let rows := Function.update rows false fun index ↦
    if index ≤ observed then 0 else rows false index
  let (previous, rows) := alignSources sent received observed toleranceUs lastPulses rows
  (rows previous observed, rows)

/-- `aligned250` and `aligned500`. -/
def alignments (rows : Rows) : Nat × Nat :=
  let (aligned250, rows) := alignedPulses sent received lastPulses observed 250 rows
  let (aligned500, _) := alignedPulses sent received lastPulses observed 500 rows
  (aligned250, aligned500)

end

variable {sent received : Nat → Pulse} {lastPulses observed toleranceUs : Nat} {rows : Rows}

theorem largest_alignCell {R : Nat → Nat → Prop} {i j diagonal above left : Nat}
    [Decidable (R i j)] (hdiagonal : Largest R i j diagonal) (habove : Largest R i (j + 1) above)
    (hleft : Largest R (i + 1) j left) :
    Largest R (i + 1) (j + 1) (alignCell (R i j) diagonal above left) := by
  rw [alignCell]
  split
  · rename_i halike
    exact hdiagonal.pair halike
  rename_i halike
  rw [← max_def_lt, max_comm]
  exact habove.skip hleft halike

/-- What the inner loop makes of a row for the sources before this one. -/
theorem alignTargets_spec {source target : Nat} {previous : Bool} (hsource : source < 1024)
    (hprevious : ∀ k ≤ observed,
      Largest (Compatible sent received toleranceUs) source k (rows previous k))
    (hzero : rows (!previous) 0 = 0) (htarget : target ≤ observed) :
    let rows' := alignTargets sent received toleranceUs source previous target rows
    rows' previous = rows previous ∧ ∀ k ≤ target,
      Largest (Compatible sent received toleranceUs) (source + 1) k (rows' (!previous) k) := by
  induction target with
  | zero =>
    refine ⟨rfl, fun k hk ↦ ?_⟩
    rw [Nat.le_zero.mp hk, alignTargets, hzero]
    exact largest_zero (by simp)
  | succ target ih =>
    obtain ⟨hrow, hcurrent⟩ := ih (by omega)
    rw [alignTargets]
    generalize alignTargets sent received toleranceUs source previous target rows = rows' at *
    refine ⟨by simp [Rows.set, hrow], fun k hk ↦ ?_⟩
    rcases Nat.le_succ_iff.mp hk with hk | rfl
    · have hne : k ≠ target + 1 := by omega
      simpa [Rows.set, hne] using hcurrent k hk
    have hcell := largest_alignCell (R := Compatible sent received toleranceUs)
      (hprevious target (by omega)) (hprevious (target + 1) htarget) (hcurrent target le_rfl)
    -- the count is at most the number of sources, so the cell has room for it
    rw [← Nat.mod_eq_of_lt (Nat.lt_of_le_of_lt hcell.le_min (show _ < 2 ^ 16 by omega))] at hcell
    simpa [Rows.set, hrow] using hcell

theorem alignSources_spec {source : Nat} (hsource : source ≤ 1024)
    (hrows : ∀ k ≤ observed, rows false k = 0) :
    let s := alignSources sent received observed toleranceUs source rows
    ∀ k ≤ observed, Largest (Compatible sent received toleranceUs) source k (s.2 s.1 k) := by
  induction source with
  | zero =>
    intro s k hk
    change Largest _ 0 k (rows false k)
    rw [hrows k hk]
    exact largest_zero (by simp)
  | succ source ih =>
    refine (alignTargets_spec (by omega) (fun k hk ↦ ?_) (by simp [Rows.set]) le_rfl).2
    simpa [Rows.set] using ih (by omega) k hk

theorem alignedPulses_spec (hlast : lastPulses ≤ 1024) (rows : Rows) :
    Largest (Compatible sent received toleranceUs) lastPulses observed
      (alignedPulses sent received lastPulses observed toleranceUs rows).1 :=
  alignSources_spec hlast (by simp +contextual) observed le_rfl

/-- **The count is the size of the largest matching**, and what follows for the two tolerances. -/
theorem aligned_largest (sent received : Nat → Pulse) (lastPulses observed : Nat)
    (hlast : lastPulses ≤ 1024) (rows : Rows) :
    (∀ toleranceUs, Largest (Compatible sent received toleranceUs) lastPulses observed
      (alignedPulses sent received lastPulses observed toleranceUs rows).1) ∧
    (alignments sent received lastPulses observed rows).1 ≤
      (alignments sent received lastPulses observed rows).2 ∧
    (alignments sent received lastPulses observed rows).2 ≤ min lastPulses observed := by
  refine ⟨fun _ ↦ alignedPulses_spec hlast rows, ?_, (alignedPulses_spec hlast _).le_min⟩
  refine (alignedPulses_spec hlast rows).le (alignedPulses_spec hlast _) fun a b h ↦ ?_
  exact ⟨h.1, h.2.trans (by decide)⟩

/-- Three pulses that get longer, of which two come back as long as each other. -/
theorem aligned_largest_two :
    3 ≤ 1024 ∧ Largest (Compatible (fun k ↦ ⟨1, 500 + 300 * k⟩) (fun _ ↦ ⟨1, 700⟩) 250) 3 2 2 :=
  ⟨by decide, (aligned_largest _ _ 3 2 (by decide) fun _ _ ↦ 0).1 250⟩

end Noobia.IrisIrCaptureThread
