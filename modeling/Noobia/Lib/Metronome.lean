import Mathlib

/-!
# Metronomes on a polled clock

A periodic task that is driven by polling: at each poll it looks whether its deadline has passed,
and if so it beats once and sets its next deadline one interval after *the poll*, not after the
deadline it missed.  Late polls therefore delay a metronome and never make it catch up, so its beats
are never closer than the interval (`Steady.run`), and on polls that go on for ever it beats for
ever (`exists_le_length_beats`).

The last section bounds how far the deadline can lie from the next poll, which is what a wrapping
clock needs to know to compare the two.
-/

/-- A metronome: when it is next due, and when it has beaten. -/
structure Metronome where
  /-- The next deadline. -/
  due : Nat
  /-- The polls at which it beat, oldest first. -/
  beats : List Nat := []

namespace Metronome

open List

/-- A poll at time `t` of a metronome with interval `d`. -/
def poll (d t : Nat) (m : Metronome) : Metronome :=
  if m.due ≤ t then ⟨t + d, m.beats ++ [t]⟩ else m

/-- The metronome after `n` polls, at the times `T 0, T 1, …`. -/
def run (d : Nat) (T : Nat → Nat) (m : Metronome) : Nat → Metronome
  | 0 => m
  | n + 1 => (run d T m n).poll d (T n)

variable {d : Nat} {T : Nat → Nat} {m : Metronome}

theorem poll_of_le {t : Nat} (h : m.due ≤ t) : m.poll d t = ⟨t + d, m.beats ++ [t]⟩ := if_pos h

theorem poll_of_lt {t : Nat} (h : t < m.due) : m.poll d t = m := if_neg (Nat.not_le.mpr h)

/-! ## Beats -/

/-- Times that are at least `d` apart. -/
def Spaced (d : Nat) (times : List Nat) : Prop := times.IsChain fun a b ↦ a + d ≤ b

/-- The beats were at least an interval apart, and the next one will be too. -/
structure Steady (d : Nat) (m : Metronome) : Prop where
  spaced : Spaced d m.beats
  last : ∀ last ∈ m.beats.getLast?, last + d ≤ m.due

theorem steady_new (due : Nat) : Steady d ⟨due, []⟩ := ⟨isChain_nil, nofun⟩

theorem Steady.poll (h : m.Steady d) (t : Nat) : (m.poll d t).Steady d := by
  rcases Nat.lt_or_ge t m.due with hlt | hle
  · rw [poll_of_lt hlt]
    exact h
  rw [poll_of_le hle]
  refine ⟨isChain_append.mpr ⟨h.spaced, isChain_singleton _, ?_⟩, ?_⟩
  · intro last hmem first hfirst
    obtain rfl := Option.some.inj hfirst
    exact (h.last last hmem).trans hle
  intro last hmem
  rw [getLast?_concat] at hmem
  obtain rfl := Option.some.inj hmem
  exact Nat.le_refl _

/-- **Beats are at least an interval apart.** -/
theorem Steady.run (h : m.Steady d) (T : Nat → Nat) (n : Nat) : (m.run d T n).Steady d := by
  induction n with
  | zero => exact h
  | succ n ih => exact ih.poll (T n)

theorem Spaced.take {times : List Nat} (h : Spaced d times) (n : Nat) : Spaced d (times.take n) :=
  List.IsChain.take h n

theorem length_beats_mono {n k : Nat} (h : n ≤ k) :
    (run d T m n).beats.length ≤ (run d T m k).beats.length := by
  induction k, h using Nat.le_induction with
  | base => exact Nat.le_refl _
  | succ k _ ih =>
    refine ih.trans ?_
    rw [run, poll]
    split
    · rw [length_append]
      exact Nat.le_add_right _ _
    · exact Nat.le_refl _

/-- Until its next beat a metronome stays as it is. -/
theorem run_eq_or_lt {n k : Nat} (h : n ≤ k) :
    run d T m k = run d T m n ∨ (run d T m n).beats.length < (run d T m k).beats.length := by
  induction k, h using Nat.le_induction with
  | base => exact .inl rfl
  | succ k hk ih =>
    rcases ih with heq | hlt
    · rw [run, heq, poll]
      split
      · right
        rw [length_append, length_singleton]
        exact Nat.lt_succ_self _
      · exact .inl rfl
    · exact .inr (hlt.trans_le (length_beats_mono (Nat.le_succ k)))

/-- **A metronome that is polled for ever beats for ever.** -/
theorem exists_le_length_beats (hmono : Monotone T) (hunbounded : ∀ t, ∃ n, t ≤ T n) (k : Nat) :
    ∃ n, k ≤ (run d T m n).beats.length := by
  induction k with
  | zero => exact ⟨0, Nat.zero_le _⟩
  | succ k ih =>
    obtain ⟨n, hn⟩ := ih
    -- a poll after both the `n`-th one and the deadline it left
    obtain ⟨i, hi⟩ := hunbounded (max (run d T m n).due (T n + 1))
    have hlate : n ≤ i := by
      by_contra hlt
      have := hmono (Nat.le_of_not_le hlt)
      omega
    rcases run_eq_or_lt (d := d) (T := T) (m := m) hlate with heq | hlt
    · refine ⟨i + 1, ?_⟩
      rw [run, heq, poll_of_le (by omega), length_append, length_singleton]
      omega
    · exact ⟨i, by omega⟩

/-! ## How far away the deadline is -/

/-- The deadline is never more than a longest interval ahead of the next poll. -/
theorem due_le_run (longest : Nat) (hmono : Monotone T) (hd : d ≤ longest)
    (hdue : m.due ≤ T 0 + longest) (n : Nat) : (run d T m n).due ≤ T n + longest := by
  induction n with
  | zero => exact hdue
  | succ n ih =>
    have hstep : T n ≤ T (n + 1) := hmono (Nat.le_succ n)
    rw [run]
    rcases Nat.lt_or_ge (T n) (run d T m n).due with hlt | hle
    · rw [poll_of_lt hlt]
      omega
    rw [poll_of_le hle]
    show T n + d ≤ T (n + 1) + longest
    omega

/-- The next poll is never a whole gap behind the deadline. -/
theorem lt_run_due {gap : Nat} (hgap : ∀ n, T (n + 1) < T n + gap)
    (hdue : T 0 < m.due + gap) (n : Nat) : T n < (run d T m n).due + gap := by
  induction n with
  | zero => exact hdue
  | succ n ih =>
    have hstep := hgap n
    rw [run]
    rcases Nat.lt_or_ge (T n) (run d T m n).due with hlt | hle
    · rw [poll_of_lt hlt]
      omega
    rw [poll_of_le hle]
    show T (n + 1) < T n + d + gap
    omega

end Metronome
