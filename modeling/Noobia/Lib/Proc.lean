import Mathlib

/-!
# Stateful procedures that may return early

A `Proc σ α` is a procedure over a state `σ` that either produces a value or gives up half way,
leaving whatever state it had reached.  This is the shape of a C function written as a sequence of
guards, `if (!ok) { complain(); return; }`, in front of the work it is really about: the state
changes made before a guard fails are kept, and nothing after it runs.

`Proc.Wp m Q E s` is the weakest precondition of `m` at `s`: `Q` is to hold of the value and the
state if `m` runs to its end, and `E` of the state if it gives up.  The rules below say what `Wp`
is for each way of building a procedure, so that a proof about a procedure follows its text from
the top and never has to unfold the monad.

`Proc.Simulates f p q` is for a state with something in it that the procedure does not look at: `p`
does to such a state what `q` does to the state with that part forgotten.  It follows the text of
the two procedures in the same way.
-/

universe u

/-- A procedure over a state `σ` that returns an `α`, or nothing if it gave up. -/
def Proc (σ α : Type u) : Type u := σ → Option α × σ

namespace Proc

variable {σ α β : Type u}

instance : Monad (Proc σ) where
  pure a := fun s ↦ (some a, s)
  bind m f := fun s ↦ match m s with
    | (some a, t) => f a t
    | (none, t) => (none, t)

/-- Give up in the current state. -/
def exit : Proc σ α := fun s ↦ (none, s)

/-- Read something off the state. -/
def read (f : σ → α) : Proc σ α := fun s ↦ (some (f s), s)

/-- Change the state. -/
def change (f : σ → σ) : Proc σ PUnit := fun s ↦ (some ⟨⟩, f s)

/-- The state a procedure leaves behind, whether or not it ran to its end. -/
def final (m : Proc σ α) (s : σ) : σ := (m s).2

variable {m : Proc σ α}

theorem bind_of_some {f : α → Proc σ β} {s t : σ} {a : α} (h : m s = (some a, t)) :
    (m >>= f) s = f a t := by
  change (match m s with
    | (some a, t) => f a t
    | (none, t) => (none, t)) = f a t
  rw [h]

theorem bind_of_none {f : α → Proc σ β} {s t : σ} (h : m s = (none, t)) :
    (m >>= f) s = (none, t) := by
  change (match m s with
    | (some a, t) => f a t
    | (none, t) => (none, t)) = (none, t)
  rw [h]

/-! ## Weakest preconditions -/

/-- The weakest precondition of `m` for `Q` at its end and `E` wherever it gives up. -/
def Wp (m : Proc σ α) (Q : α → σ → Prop) (E : σ → Prop) (s : σ) : Prop :=
  match m s with
  | (some a, t) => Q a t
  | (none, t) => E t

variable {Q : α → σ → Prop} {E : σ → Prop} {s : σ}

theorem wp_pure {a : α} (h : Q a s) : Wp (pure a : Proc σ α) Q E s := h

theorem wp_exit (h : E s) : Wp (exit : Proc σ α) Q E s := h

theorem wp_read {f : σ → α} (h : Q (f s) s) : Wp (read f) Q E s := h

theorem wp_change {Q : PUnit → σ → Prop} {f : σ → σ} (h : Q ⟨⟩ (f s)) : Wp (change f) Q E s := h

/-- A sequence of two procedures meets a postcondition when the first one leads to a state from
which the second does. -/
theorem wp_bind {m : Proc σ β} {f : β → Proc σ α} (h : Wp m (fun b t ↦ Wp (f b) Q E t) E s) :
    Wp (m >>= f) Q E s := by
  unfold Wp at h
  change match (match m s with
    | (some b, t) => f b t
    | (none, t) => (none, t)) with
    | (some a, t) => Q a t
    | (none, t) => E t
  cases hm : m s with
  | mk r t =>
    rw [hm] at h
    cases r with
    | none | some b => exact h

/-- A branch meets a postcondition when each arm does, under its condition. -/
theorem wp_ite {c : Prop} [Decidable c] {n : Proc σ α} (hm : c → Wp m Q E s)
    (hn : ¬ c → Wp n Q E s) : Wp (if c then m else n) Q E s := by
  by_cases hc : c
  · rw [if_pos hc]; exact hm hc
  · rw [if_neg hc]; exact hn hc

/-- A weaker postcondition is met whenever a stronger one is. -/
theorem Wp.mono {Q' : α → σ → Prop} {E' : σ → Prop} (h : Wp m Q E s)
    (hQ : ∀ a t, Q a t → Q' a t) (hE : ∀ t, E t → E' t) : Wp m Q' E' s := by
  rw [Wp] at h ⊢
  cases hm : m s with
  | mk r t =>
    rw [hm] at h
    cases r with
    | none => exact hE t h
    | some a => exact hQ a t h

/-- What holds at the end and wherever the procedure gives up holds of the state it leaves. -/
theorem Wp.final {R : σ → Prop} (h : Wp m (fun _ ↦ R) R s) : R (m.final s) := by
  rw [Wp] at h
  rw [Proc.final]
  cases hm : m s with
  | mk r t =>
    rw [hm] at h
    cases r with
    | none | some a => exact h

/-- The state a procedure leaves is the only one it comes to. -/
theorem wp_final (m : Proc σ α) (s : σ) :
    Wp m (fun _ t ↦ t = m.final s) (fun t ↦ t = m.final s) s := by
  rw [Wp, Proc.final]
  cases m s with
  | mk r t =>
    cases r with
    | none | some a => rfl

/-! ## Simulation -/

/-- On images under `f`, `q` does what `p` does. -/
def Simulates {τ : Type u} (f : σ → τ) (p : Proc σ α) (q : Proc τ α) : Prop :=
  ∀ s, q (f s) = ((p s).1, f (p s).2)

variable {τ : Type u} {f : σ → τ}

theorem simulates_pure (a : α) : Simulates f (pure a) (pure a) := fun _ ↦ rfl

theorem simulates_exit : Simulates f (exit : Proc σ α) exit := fun _ ↦ rfl

theorem simulates_read {g : σ → α} {h : τ → α} (hread : ∀ s, h (f s) = g s) :
    Simulates f (read g) (read h) :=
  fun s ↦ congrArg (fun a ↦ (some a, f s)) (hread s)

variable {g : σ → σ}

theorem simulates_change {h : τ → τ} (hchange : ∀ s, h (f s) = f (g s)) :
    Simulates f (change g) (change h) :=
  fun s ↦ congrArg (fun t ↦ (some PUnit.unit, t)) (hchange s)

variable {p : Proc σ α} {q : Proc τ α}

theorem Simulates.bind {p' : α → Proc σ β} {q' : α → Proc τ β}
    (h : Simulates f p q) (h' : ∀ a, Simulates f (p' a) (q' a)) :
    Simulates f (p >>= p') (q >>= q') := by
  intro s
  cases hp : p s with
  | mk r t =>
    have hq : q (f s) = (r, f t) := by rw [h s, hp]
    cases r with
    | none => rw [bind_of_none hp, bind_of_none hq]
    | some a => rw [bind_of_some hp, bind_of_some hq, h' a t]

theorem simulates_ite {c : Prop} [Decidable c] {p' : Proc σ α} {q' : Proc τ α}
    (h : Simulates f p q) (h' : Simulates f p' q') :
    Simulates f (if c then p else p') (if c then q else q') := by
  split
  · exact h
  · exact h'

/-- A change that `f` does not see is none. -/
theorem simulates_skip (hskip : ∀ s, f (g s) = f s) : Simulates f (change g) (pure ⟨⟩) :=
  fun s ↦ congrArg (fun t ↦ (some PUnit.unit, t)) (hskip s).symm

theorem Simulates.after (h : Simulates f p q)
    (hskip : ∀ s, f (g s) = f s) : Simulates f (change g >>= fun _ ↦ p) q := by
  intro s
  rw [← hskip s]
  exact h (g s)

theorem Simulates.final (h : Simulates f p q) (s : σ) : q.final (f s) = f (p.final s) := by
  rw [Proc.final, h s, Proc.final]

end Proc
