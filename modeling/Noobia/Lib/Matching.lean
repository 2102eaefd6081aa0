import Mathlib

/-!
# Matchings that do not cross

The first `i` items of one sequence are matched with the first `j` of another, one with one and in
order, and only items that `R` has to do with each other.  `Matching.Largest` is the size of the
largest such matching.  The rules for it are those of the familiar table: an item that can be
matched with the last of the other sequence may as well be, whatever `R` is, since at most one pair
has to give way for it.
-/

/-- The pairs, the last one first: each is before the one after it in both sequences. -/
def Matching (R : Nat → Nat → Prop) : Nat → Nat → List (Nat × Nat) → Prop
  | _, _, [] => True
  | i, j, (a, b) :: pairs => a < i ∧ b < j ∧ R a b ∧ Matching R a b pairs

namespace Matching

variable {R R' : Nat → Nat → Prop} {i j i' j' n m : Nat} {pairs : List (Nat × Nat)}

theorem mono (h : Matching R i j pairs) (hi : i ≤ i') (hj : j ≤ j') : Matching R i' j' pairs := by
  cases pairs with
  | nil => trivial
  | cons p pairs => exact ⟨Nat.lt_of_lt_of_le h.1 hi, Nat.lt_of_lt_of_le h.2.1 hj, h.2.2⟩

theorem imp (h : Matching R i j pairs) (hR : ∀ a b, R a b → R' a b) : Matching R' i j pairs := by
  induction pairs generalizing i j with
  | nil => trivial
  | cons p pairs ih => exact ⟨h.1, h.2.1, hR _ _ h.2.2.1, ih h.2.2.2⟩

theorem length_le (h : Matching R i j pairs) : pairs.length ≤ min i j := by
  induction pairs generalizing i j with
  | nil => exact Nat.zero_le _
  | cons p pairs ih =>
    have := ih h.2.2.2
    have := h.1
    have := h.2.1
    rw [List.length_cons]
    omega

/-- There is a matching of that size, and none that is larger. -/
def Largest (R : Nat → Nat → Prop) (i j n : Nat) : Prop :=
  (∃ pairs, Matching R i j pairs ∧ pairs.length = n) ∧
    ∀ pairs, Matching R i j pairs → pairs.length ≤ n

theorem largest_zero (h : min i j = 0) : Largest R i j 0 :=
  ⟨⟨[], trivial, rfl⟩, fun _ hpairs ↦ h ▸ hpairs.length_le⟩

theorem Largest.le_min (h : Largest R i j n) : n ≤ min i j := by
  obtain ⟨⟨pairs, hpairs, rfl⟩, -⟩ := h
  exact hpairs.length_le

theorem Largest.le (h : Largest R i j n) (h' : Largest R' i j m) (hR : ∀ a b, R a b → R' a b) :
    n ≤ m := by
  obtain ⟨⟨pairs, hpairs, rfl⟩, -⟩ := h
  exact h'.2 pairs (hpairs.imp hR)

theorem Largest.pair (h : Largest R i j n) (hR : R i j) : Largest R (i + 1) (j + 1) (n + 1) := by
  obtain ⟨⟨pairs, hpairs, rfl⟩, hmax⟩ := h
  refine ⟨⟨(i, j) :: pairs, ⟨i.lt_succ_self, j.lt_succ_self, hR, hpairs⟩, rfl⟩, fun other ho ↦ ?_⟩
  cases other with
  | nil => exact Nat.zero_le _
  | cons p other =>
    -- without its last pair it is a matching of what came before
    have hbefore := ho.2.2.2.mono (Nat.le_of_lt_succ ho.1) (Nat.le_of_lt_succ ho.2.1)
    exact Nat.succ_le_succ (hmax other hbefore)

theorem Largest.skip (h : Largest R i (j + 1) n) (h' : Largest R (i + 1) j m) (hR : ¬ R i j) :
    Largest R (i + 1) (j + 1) (max n m) := by
  obtain ⟨⟨pairs, hpairs, rfl⟩, hmax⟩ := h
  obtain ⟨⟨pairs', hpairs', rfl⟩, hmax'⟩ := h'
  refine ⟨?_, fun other ho ↦ le_max_iff.mpr ?_⟩
  · rcases max_choice pairs.length pairs'.length with hchoice | hchoice <;> rw [hchoice]
    · exact ⟨pairs, hpairs.mono i.le_succ le_rfl, rfl⟩
    · exact ⟨pairs', hpairs'.mono le_rfl j.le_succ, rfl⟩
  cases other with
  | nil => exact .inl (Nat.zero_le _)
  | cons p other =>
    obtain ⟨ha, hb, hp, hrest⟩ := ho
    rcases Nat.lt_succ_iff_lt_or_eq.mp ha with ha | ha
    · exact .inl (hmax (p :: other) ⟨ha, hb, hp, hrest⟩)
    rcases Nat.lt_succ_iff_lt_or_eq.mp hb with hb | hb
    · exact .inr (hmax' (p :: other) ⟨ha ▸ i.lt_succ_self, hb, hp, hrest⟩)
    · exact absurd (ha ▸ hb ▸ hp) hR

end Matching
