import Noobia.Lib.Threads

/-!
# Threads and a clock

Where an input tells the time, properties of a system can be about the time at which things happen.
A `Clocked` state is a state and the time of the last section that was taken, and
`Routine.clocked` is a routine over such states: the same routine, except that each of its sections
sets the clock to the time in its input.

The clock is only looked at from the outside.  `System.run_clocked` says that a system runs with it
as it would without, so what is proved about the clocked system is about the system.
-/

/-- A state and the time. -/
structure Clocked (S : Type) where
  clock : Nat
  state : S

namespace Routine

variable {I S α β : Type} (time : I → Nat)

/-- A routine that keeps the clock. -/
def clocked : Routine I S α → Routine I (Clocked S) α
  | ret a => ret a
  | step next rest => step (fun i s ↦ ⟨time i, next i s.state⟩) fun i s ↦ (rest i s.state).clocked

theorem clocked_bind (m : Routine I S α) (f : α → Routine I S β) :
    (m >>= f).clocked time = m.clocked time >>= fun a ↦ (f a).clocked time := by
  induction m with
  | ret a => rfl
  | step next rest ih => exact congrArg (step _) (funext₂ fun i s ↦ ih i s.state)

variable {time} {m : Routine I S α}

theorem Takes.clocked {T : I → S → S → Prop} (h : m.Takes T) :
    (m.clocked time).Takes fun i s t ↦ t.clock = time i ∧ T i s.state t.state := by
  induction m with
  | ret a => trivial
  | step next rest ih => exact fun i s ↦ ⟨⟨rfl, (h i s.state).1⟩, ih i s.state (h i s.state).2⟩

variable {D : Discipline (Clocked S)} {k : Nat} {s : Clocked S}

theorem ok_clocked_bind {R : α → Clocked S → Prop} {Q : β → Clocked S → Prop}
    {f : α → Routine I S β} (hm : (m.clocked time).Ok D k R s)
    (hf : ∀ a t, R a t → ((f a).clocked time).Ok D k Q t) :
    ((m >>= f).clocked time).Ok D k Q s := by
  rw [clocked_bind]
  exact ok_bind hm hf

theorem ok_clocked_atomic {f : I → S → α × S} {P : Clocked S → Prop} {Q : α → Clocked S → Prop}
    (hP : D.Stable k P) (hQ : ∀ a, D.Stable k (Q a)) (hs : P s)
    (h : ∀ i t u, P t → D.Inv t → u = ⟨time i, (f i t.state).2⟩ → D.Allowed k t u →
      D.Inv u ∧ D.Guar k t u ∧ Q (f i t.state).1 u) : ((atomic f).clocked time).Ok D k Q s :=
  ok_atomic (f := fun i (t : Clocked S) ↦ ((f i t.state).1, ⟨time i, (f i t.state).2⟩)) hP hQ hs
    fun i t ht hinv ↦ h i t _ ht hinv rfl

end Routine

namespace System

variable {I S A : Type} (time : I → Nat) (body : Nat → A → Routine I S Unit)

/-- A system with a clock. -/
def clocked (clock : Nat) (sys : System I S) : System I (Clocked S) :=
  ⟨⟨clock, sys.shared⟩, sys.threads.map (Routine.clocked time)⟩

theorem act_clocked (clock : Nat) (sys : System I S) (a : Act A I) :
    ∃ clock', (sys.clocked time clock).act (fun k a ↦ (body k a).clocked time) a =
      (sys.act body a).clocked time clock' := by
  cases a with
  | spawn a => exact ⟨clock, by simp [act, clocked]⟩
  | advance k i =>
    rw [act.eq_def, act.eq_def]
    simp only [clocked, List.getElem?_map]
    cases sys.threads[k]? with
    | none => exact ⟨clock, rfl⟩
    | some m =>
      cases m with
      | ret a => exact ⟨clock, rfl⟩
      | step next rest => exact ⟨time i, by simp [Routine.clocked, List.map_set]⟩

/-- **A system runs with a clock as it would without.** -/
theorem run_clocked (clock : Nat) (sys : System I S) (acts : List (Act A I)) :
    ∃ clock', (sys.clocked time clock).run (fun k a ↦ (body k a).clocked time) acts =
      (sys.run body acts).clocked time clock' := by
  induction acts generalizing clock sys with
  | nil => exact ⟨clock, rfl⟩
  | cons a acts ih =>
    obtain ⟨clock', hclock'⟩ := act_clocked time body clock sys a
    rw [run, List.foldl_cons, hclock']
    exact ih clock' (sys.act body a)

end System
