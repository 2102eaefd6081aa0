import Noobia.Lib.Threads

/-!
# A thread on its own

When no other thread is at work a routine simply runs from its beginning to its end.
`Routine.Leads T` says where it can lead with sections that all are as `T` has it, and
`Routine.Alone` what holds wherever it leads.  The second has a rule for each way of building a
routine.
-/

open List

namespace Routine

variable {I S α β : Type} {T : I → S → S → Prop}

/-- On its own, with sections that are as `T` has it, the routine can lead from `s` to `t` and
return `b`. -/
def Leads (T : I → S → S → Prop) : Routine I S α → S → α → S → Prop
  | ret a, s, b, t => a = b ∧ s = t
  | step next rest, s, b, t => ∃ i, T i s (next i s) ∧ (rest i s).Leads T (next i s) b t

variable {m : Routine I S α} {f : α → Routine I S β} {R : α → S → Prop}

theorem leads_bind {s u : S} {b : β} :
    (m >>= f).Leads T s b u ↔ ∃ a t, m.Leads T s a t ∧ (f a).Leads T t b u := by
  induction m generalizing s with
  | ret a =>
    refine ⟨fun h ↦ ⟨a, s, ⟨rfl, rfl⟩, h⟩, ?_⟩
    rintro ⟨_, _, ⟨rfl, rfl⟩, h⟩
    exact h
  | step next rest ih =>
    constructor
    · rintro ⟨i, hi, h⟩
      obtain ⟨a, t, hm, hf⟩ := (ih i s).mp h
      exact ⟨a, t, ⟨i, hi, hm⟩, hf⟩
    · rintro ⟨a, t, ⟨i, hi, hm⟩, hf⟩
      exact ⟨i, hi, (ih i s).mpr ⟨a, t, hm, hf⟩⟩

/-! ## Runs on the same input -/

/-- Where the routine leads, and what it returns, when every input is the same. -/
def finish (i : I) : Routine I S α → S → α × S
  | ret a, s => (a, s)
  | step next rest, s => (rest i s).finish i (next i s)

/-- All its sections are then as `T` has it. -/
def Throughout (T : I → S → S → Prop) (i : I) : Routine I S α → S → Prop
  | ret _, _ => True
  | step next rest, s => T i s (next i s) ∧ (rest i s).Throughout T i (next i s)

/-- Whether they are can be found out by running it. -/
def decidableThroughout (T : I → S → S → Prop) [∀ i s t, Decidable (T i s t)] (i : I) :
    (m : Routine I S α) → (s : S) → Decidable (m.Throughout T i s)
  | ret _, _ => .isTrue trivial
  | step next rest, s =>
    have := decidableThroughout T i (rest i s) (next i s)
    inferInstanceAs (Decidable (_ ∧ _))

instance [∀ i s t, Decidable (T i s t)] {i : I} {m : Routine I S α} {s : S} :
    Decidable (m.Throughout T i s) :=
  decidableThroughout T i m s

theorem throughout_of_forall {i : I} (h : ∀ s t, T i s t) (m : Routine I S α) (s : S) :
    m.Throughout T i s := by
  induction m generalizing s with
  | ret a => trivial
  | step next rest ih => exact ⟨h _ _, ih i s (next i s)⟩

theorem leads_finish {i : I} {s : S} (h : m.Throughout T i s) :
    m.Leads T s (m.finish i s).1 (m.finish i s).2 := by
  induction m generalizing s with
  | ret a => exact ⟨rfl, rfl⟩
  | step next rest ih => exact ⟨i, h.1, ih i s h.2⟩

/-! ## What holds wherever it leads -/

/-- On its own the routine ends, and `Q` holds of what it returns and where it leads. -/
def Alone (T : I → S → S → Prop) (m : Routine I S α) (s : S) (Q : α → S → Prop) : Prop :=
  ∀ a t, m.Leads T s a t → Q a t

variable {s : S} {Q : α → S → Prop}

theorem alone_pure {a : α} (h : Q a s) : (pure a : Routine I S α).Alone T s Q := by
  rintro _ _ ⟨rfl, rfl⟩
  exact h

theorem alone_bind {Q : β → S → Prop} (hm : m.Alone T s R) (hf : ∀ a t, R a t → (f a).Alone T t Q) :
    (m >>= f).Alone T s Q := by
  intro b u h
  obtain ⟨a, t, hma, hfb⟩ := leads_bind.mp h
  exact hf a t (hm a t hma) b u hfb

theorem alone_atomic {f : I → S → α × S} (h : ∀ i, T i s (f i s).2 → Q (f i s).1 (f i s).2) :
    (atomic f).Alone T s Q := by
  rintro _ _ ⟨i, hi, rfl, rfl⟩
  exact h i hi

theorem alone_look {f : S → α} (h : Q (f s) s) : (look f : Routine I S α).Alone T s Q :=
  alone_atomic fun _ _ ↦ h

theorem alone_change {f : I → S → S} {Q : Unit → S → Prop}
    (h : ∀ i, T i s (f i s) → Q () (f i s)) : (change f).Alone T s Q :=
  alone_atomic h

theorem alone_ite {c : Prop} [Decidable c] {n : Routine I S α} (hm : c → m.Alone T s Q)
    (hn : ¬ c → n.Alone T s Q) : (if c then m else n).Alone T s Q := by
  split
  · exact hm ‹_›
  · exact hn ‹_›

theorem Alone.mono (h : m.Alone T s R) (hRQ : ∀ a t, R a t → Q a t) : m.Alone T s Q :=
  fun a t ht ↦ hRQ a t (h a t ht)

/-- A routine whose sections all keep `P`. -/
theorem Takes.alone {T' : I → S → S → Prop} {P : S → Prop} (hm : m.Takes T')
    (hT : ∀ i s t, T i s t → T' i s t → P s → P t) (hs : P s) : m.Alone T s fun _ ↦ P := by
  induction m generalizing s with
  | ret a =>
    rintro _ _ ⟨-, rfl⟩
    exact hs
  | step next rest ih =>
    rintro b u ⟨i, hi, h⟩
    exact ih i s (hm i s).2 (hT i s _ hi (hm i s).1 hs) b u h

end Routine

