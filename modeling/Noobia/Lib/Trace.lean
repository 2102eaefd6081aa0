import Mathlib

/-!
# Runs of a machine

A machine is moved by actions, one after the other.  A property of its states holds all along a run
(`Always`) if it holds in every state the run comes through; a condition on the actions
(`Throughout`) is about each of them and the state in which it is taken.

`always_of_inv` is the usual rule: what every action keeps holds all along; `always_of_throughout`
is its form for actions that have to be allowed. `always_iff_throughout` is for conditions that
cannot be done without: if every other action breaks the property, then the property holds all along
if and only if all actions are allowed.

Where the machine moves between the actions as well, a run is known by its log: the actions, each
with the state it found.  `Along` is `Always` for properties of the log and the state, and `Exactly`
is `always_iff_throughout` made into an invariant, so that it can be carried through whatever the
machine does.
-/

namespace Trace

open List

variable {S A : Type} (step : S → A → S)

/-- The property holds in every state of the run. -/
def Always (P : S → Prop) : S → List A → Prop
  | s, [] => P s
  | s, a :: actions => P s ∧ Always P (step s a) actions

/-- Every action is taken in a state where it is allowed. -/
def Throughout (C : S → A → Prop) : S → List A → Prop
  | _, [] => True
  | s, a :: actions => C s a ∧ Throughout C (step s a) actions

/-- `Throughout` can be decided by taking the actions. -/
def decidableThroughout (C : S → A → Prop) [∀ s a, Decidable (C s a)] :
    ∀ (s : S) (actions : List A), Decidable (Throughout step C s actions)
  | _, [] => .isTrue trivial
  | s, a :: actions =>
    have := decidableThroughout C (step s a) actions
    inferInstanceAs (Decidable (C s a ∧ Throughout step C (step s a) actions))

instance (C : S → A → Prop) [∀ s a, Decidable (C s a)] {s : S} {actions : List A} :
    Decidable (Throughout step C s actions) :=
  decidableThroughout step C s actions

variable {step} {P Inv : S → Prop} {C : S → A → Prop} {s : S} {actions : List A}

theorem always_foldl (h : Always step P s actions) : P (actions.foldl step s) := by
  induction actions generalizing s with
  | nil => exact h
  | cons a actions ih => exact ih h.2

theorem always_of_throughout (hkeep : ∀ s a, Inv s → C s a → Inv (step s a))
    (hP : ∀ s, Inv s → P s) (hs : Inv s) (h : Throughout step C s actions) :
    Always step P s actions := by
  induction actions generalizing s with
  | nil => exact hP s hs
  | cons a actions ih => exact ⟨hP s hs, ih (hkeep s a hs h.1) h.2⟩

theorem throughout_of_forall (h : ∀ s a, C s a) (s : S) (actions : List A) :
    Throughout step C s actions := by
  induction actions generalizing s with
  | nil => trivial
  | cons a actions ih => exact ⟨h s a, ih (step s a)⟩

theorem always_of_inv (hkeep : ∀ s a, Inv s → Inv (step s a)) (hP : ∀ s, Inv s → P s) (hs : Inv s)
    (actions : List A) : Always step P s actions :=
  always_of_throughout (fun s a h _ ↦ hkeep s a h) hP hs
    (throughout_of_forall (C := fun _ _ ↦ True) (fun _ _ ↦ trivial) s actions)

/-- **The condition is exact** if every action that is not allowed breaks the property. -/
theorem always_iff_throughout (hkeep : ∀ s a, Inv s → C s a → Inv (step s a))
    (hP : ∀ s, Inv s → P s) (hbreak : ∀ s a, Inv s → ¬ C s a → ¬ P (step s a))
    (hs : Inv s) : Always step P s actions ↔ Throughout step C s actions := by
  refine ⟨fun h ↦ ?_, always_of_throughout hkeep hP hs⟩
  induction actions generalizing s with
  | nil => trivial
  | cons a actions ih =>
    have ha : C s a := by
      by_contra hnot
      refine hbreak s a hs hnot ?_
      cases actions with
      | nil => exact h.2
      | cons b actions => exact h.2.1
    exact ⟨ha, ih (hkeep s a hs ha) h.2⟩

/-! ## Runs with a log -/

/-- The property holds of what had been done and the state found at every action, and at the
end. -/
def Along (P : List (A × S) → S → Prop) (log : List (A × S)) (s : S) : Prop :=
  (∀ before a state after, log = before ++ (a, state) :: after → P before state) ∧ P log s

section

variable {P Inv : List (A × S) → S → Prop} {C : A × S → Prop} {log : List (A × S)} {s s' : S}

theorem along_append (a : A) :
    Along P (log ++ [(a, s)]) s' ↔ Along P log s ∧ P (log ++ [(a, s)]) s' := by
  constructor
  · rintro ⟨hbefore, hend⟩
    refine ⟨⟨fun before b state after h ↦ ?_, hbefore log a s [] rfl⟩, hend⟩
    refine hbefore before b state (after ++ [(a, s)]) ?_
    rw [h, append_assoc, cons_append]
  · rintro ⟨⟨hbefore, hs⟩, hend⟩
    refine ⟨fun before b state after h ↦ ?_, hend⟩
    rcases append_eq_append_iff.mp h with ⟨mid, rfl, hmid⟩ | ⟨mid, rfl, hmid⟩
    · cases mid with
      | nil =>
        rw [append_nil]
        obtain ⟨rfl, rfl⟩ := Prod.mk.inj (List.cons.inj hmid).1
        exact hs
      | cons entry mid =>
        have hlength := congrArg List.length hmid
        simp at hlength
    · cases mid with
      | nil =>
        obtain ⟨rfl, rfl⟩ := Prod.mk.inj (List.cons.inj hmid).1
        rw [append_nil] at hs
        exact hs
      | cons entry mid =>
        obtain ⟨rfl, -⟩ := List.cons.inj hmid
        exact hbefore before b state mid rfl

/-- The property holds all along if and only if all actions were allowed, and an invariant holds as
long as they are. -/
structure Exactly (P Inv : List (A × S) → S → Prop) (C : A × S → Prop) (log : List (A × S))
    (s : S) :
    Prop where
  inv : (∀ entry ∈ log, C entry) → Inv log s
  along_iff : Along P log s ↔ ∀ entry ∈ log, C entry

theorem exactly_nil (hinv : Inv [] s) (hP : P [] s) : Exactly P Inv C [] s :=
  ⟨fun _ ↦ hinv, ⟨fun _ ↦ nofun, fun _ ↦ ⟨fun _ _ _ _ h ↦ absurd h (by simp), hP⟩⟩⟩

/-- An action that keeps the invariant if it is allowed and breaks the property if it is not. -/
theorem Exactly.action (h : Exactly P Inv C log s) (a : A) (hP : ∀ log s, Inv log s → P log s)
    (hkeep : Inv log s → C (a, s) → Inv (log ++ [(a, s)]) s')
    (hbreak : Inv log s → ¬ C (a, s) → ¬ P (log ++ [(a, s)]) s') :
    Exactly P Inv C (log ++ [(a, s)]) s' := by
  have hall : (∀ entry ∈ log ++ [(a, s)], C entry) ↔ (∀ entry ∈ log, C entry) ∧ C (a, s) := by
    simp [or_imp, forall_and]
  refine ⟨fun hC ↦ ?_, ?_⟩
  · exact hkeep (h.inv (hall.mp hC).1) (hall.mp hC).2
  rw [along_append, h.along_iff, hall, and_congr_right_iff]
  intro hC
  refine ⟨fun hend ↦ ?_, fun ha ↦ hP _ _ (hkeep (h.inv hC) ha)⟩
  by_contra ha
  exact hbreak (h.inv hC) ha hend

/-- A move that the property and the invariant do not notice. -/
theorem Exactly.move (h : Exactly P Inv C log s) (hinv : Inv log s → Inv log s')
    (hP : P log s' ↔ P log s) : Exactly P Inv C log s' :=
  ⟨fun hC ↦ hinv (h.inv hC), by rw [Along, hP]; exact h.along_iff⟩

end

end Trace
