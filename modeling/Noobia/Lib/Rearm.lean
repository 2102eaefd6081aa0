import Mathlib

/-!
# Detectors that rest between events

A detector looks at one thing after another.  While it is armed, what it sees may be an event, and
an event disarms it.  While it is not, it counts the calm things it sees in a row, and is armed
again when there are `n` of them.  `Follows.step` keeps what that makes of the things it has seen:
between any two events there are `n` calm ones in a row.
-/

open List

namespace Rearm

variable {β : Type} (event : β → Bool) (calm : β → Prop) (n : Nat)

/-- So many calm things in a row. -/
def Row (list : List β) : Prop :=
  ∃ before window after, list = before ++ (window ++ after) ∧ n ≤ window.length ∧
    ∀ c ∈ window, calm c

/-- Between two events there are enough calm things in a row. -/
def Rests (log : List β) : Prop :=
  ∀ before first between second after, log = before ++ first :: (between ++ second :: after) →
    event first = true → event second = true → Row calm n between

/-- What a detector does with the next thing.  Its state says whether it is armed, and how many calm
things it has counted; it may count fewer than there were. -/
inductive Step : Bool × Nat → β → Bool × Nat → Prop
  | event {k : Nat} {c : β} : event c = true → Step (true, k) c (false, 0)
  | quiet {k k' : Nat} {c : β} : event c = false → Step (true, k) c (true, k')
  | count {k k' : Nat} {c : β} : event c = false → (k' = 0 ∨ (k' ≤ k + 1 ∧ calm c)) →
      Step (false, k) c (if n ≤ k' then (true, 0) else (false, k'))

/-- What is known of the things seen since an event: enough calm ones in a row, if the detector is
armed; and if it is not, as many as it has counted, at the end. -/
def Since : Bool × Nat → List β → Prop
  | (true, _), between => Row calm n between
  | (false, k), between =>
    ∃ front window, between = front ++ window ∧ k ≤ window.length ∧ ∀ c ∈ window, calm c

/-- The invariant of a detector. -/
structure Follows (s : Bool × Nat) (log : List β) : Prop where
  rests : Rests event calm n log
  since : ∀ before first between, log = before ++ first :: between → event first = true →
    Since calm n s between

variable {event calm n}

/-- A list that was made longer at its end, split before that. -/
theorem append_singleton_eq {list before between : List β} {c first : β}
    (h : list ++ [c] = before ++ first :: between) :
    (list = before ∧ c = first ∧ between = []) ∨
      ∃ between', between = between' ++ [c] ∧ list = before ++ first :: between' := by
  rcases eq_nil_or_concat between with rfl | ⟨between', last, rfl⟩
  · obtain ⟨rfl, hlast⟩ := append_inj' h rfl
    exact .inl ⟨rfl, (List.cons.inj hlast).1, rfl⟩
  rw [concat_eq_append, ← cons_append, ← append_assoc] at h
  obtain ⟨rfl, hlast⟩ := append_inj' h rfl
  obtain rfl := (List.cons.inj hlast).1
  exact .inr ⟨between', concat_eq_append, rfl⟩

theorem follows_nil (s : Bool × Nat) : Follows event calm n s [] :=
  ⟨fun _ _ _ _ _ h ↦ by simp at h, fun _ _ _ h ↦ by simp at h⟩

theorem Since.step {s s' : Bool × Nat} {c : β} {between : List β} (h : Since calm n s between)
    (hstep : Step event calm n s c s') : Since calm n s' (between ++ [c]) := by
  cases hstep with
  | event => exact ⟨between ++ [c], [], (append_nil _).symm, Nat.zero_le _, nofun⟩
  | quiet =>
    obtain ⟨before, window, after, rfl, hlength, hwindow⟩ := h
    exact ⟨before, window, after ++ [c], by simp only [append_assoc], hlength, hwindow⟩
  | @count k k' _ _ hcount =>
    obtain ⟨front, window, rfl, hk, hwindow⟩ := h
    obtain ⟨front', window', hsplit, hk', hwindow'⟩ : ∃ front' window',
        front ++ window ++ [c] = front' ++ window' ∧ k' ≤ window'.length ∧
          ∀ d ∈ window', calm d := by
      rcases hcount with rfl | ⟨hk', hcalm⟩
      · exact ⟨front ++ window ++ [c], [], by simp, Nat.zero_le _, nofun⟩
      refine ⟨front, window ++ [c], by simp, ?_, fun d hd ↦ ?_⟩
      · rw [length_append, length_singleton]
        omega
      rcases mem_append.mp hd with hd | hd
      · exact hwindow d hd
      · exact mem_singleton.mp hd ▸ hcalm
    split
    · rename_i hrearm
      exact ⟨front', window', [], by rw [append_nil, hsplit], Nat.le_trans hrearm hk', hwindow'⟩
    · exact ⟨front', window', hsplit, hk', hwindow'⟩

/-- **The invariant is kept**, whatever is seen. -/
theorem Follows.step {s s' : Bool × Nat} {c : β} {log : List β} (h : Follows event calm n s log)
    (hstep : Step event calm n s c s') : Follows event calm n s' (log ++ [c]) := by
  refine ⟨fun before first between second after hlog hfirst hsecond ↦ ?_,
    fun before first between hlog hfirst ↦ ?_⟩
  · rcases append_singleton_eq hlog with ⟨-, -, hnil⟩ | ⟨rest, hrest, hold⟩
    · simp at hnil
    rcases append_singleton_eq hrest.symm with ⟨rfl, rfl, -⟩ | ⟨after', -, rfl⟩
    · -- the new one is the second event: the detector was armed then
      have hsince := h.since before first _ hold hfirst
      cases hstep with
      | event => exact hsince
      | quiet hnot | count hnot => exact absurd (hnot.symm.trans hsecond) Bool.false_ne_true
    · exact h.rests before first between second after' hold hfirst hsecond
  · rcases append_singleton_eq hlog with ⟨-, rfl, rfl⟩ | ⟨between', rfl, hold⟩
    · cases hstep with
      | event => exact ⟨[], [], rfl, Nat.zero_le _, nofun⟩
      | quiet hnot | count hnot => exact absurd (hnot.symm.trans hfirst) Bool.false_ne_true
    · exact (h.since before first between' hold hfirst).step hstep

end Rearm
