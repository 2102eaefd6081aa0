import Noobia.Lib.Threads

/-!
# A thread among others

In an interleaving a thread takes its sections one after the other, and between them the others do
what they do.  `Routine.Amid E T` is what that looks like from the thread: between its sections the
state moves along `E`, and its own sections are as `T` has it.  `Routine.Amidst` is what holds
wherever it leads, with a rule for each way of building a routine.

`System.run_amid` takes an interleaving apart in this way.
-/

open List

namespace Routine

variable {I S α β : Type} {E : S → S → Prop} {T : I → S → S → Prop}

/-- The routine can lead from `s` to `t` and return `b` while others move the state along `E`. -/
def Amid (E : S → S → Prop) (T : I → S → S → Prop) : Routine I S α → S → α → S → Prop
  | ret a, s, b, t => a = b ∧ E s t
  | step next rest, s, b, t =>
    ∃ i u, E s u ∧ T i u (next i u) ∧ (rest i u).Amid E T (next i u) b t

variable {m : Routine I S α} {T' : I → S → S → Prop} {f : α → Routine I S β}

/-- It does not matter that the others have been at work before. -/
theorem Amid.after (htrans : ∀ {s t u}, E s t → E t u → E s u) {s s' t : S} {b : α}
    (h : m.Amid E T s' b t) (hs : E s s') : m.Amid E T s b t := by
  cases m with
  | ret a => exact ⟨h.1, htrans hs h.2⟩
  | step next rest =>
    obtain ⟨i, u, hu, hT, hrest⟩ := h
    exact ⟨i, u, htrans hs hu, hT, hrest⟩

theorem Amid.bind (hrefl : ∀ s, E s s) {s u : S} {b : β} (h : (m >>= f).Amid E T s b u) :
    ∃ a t, m.Amid E T s a t ∧ (f a).Amid E T t b u := by
  induction m generalizing s with
  | ret a => exact ⟨a, s, ⟨rfl, hrefl s⟩, h⟩
  | step next rest ih =>
    obtain ⟨i, v, hv, hT, h⟩ := h
    obtain ⟨a, t, hm, hf⟩ := ih i v h
    exact ⟨a, t, ⟨i, v, hv, hT, hm⟩, hf⟩

/-! ## What holds wherever it leads -/

/-- Whatever the others do, when the routine ends `Q` holds of what it returns and where it leads.
-/
def Amidst (E : S → S → Prop) (T : I → S → S → Prop) (m : Routine I S α) (s : S)
    (Q : α → S → Prop) : Prop :=
  ∀ a t, m.Amid E T s a t → Q a t

variable {s : S} {Q : α → S → Prop}

theorem amidst_pure {a : α} (h : ∀ t, E s t → Q a t) : (pure a : Routine I S α).Amidst E T s Q := by
  rintro _ t ⟨rfl, ht⟩
  exact h t ht

theorem amidst_bind (hrefl : ∀ s, E s s) {R : α → S → Prop} {Q : β → S → Prop}
    (hm : m.Amidst E T s R) (hf : ∀ a t, R a t → (f a).Amidst E T t Q) :
    (m >>= f).Amidst E T s Q := by
  intro b u h
  obtain ⟨a, t, hma, hfb⟩ := h.bind hrefl
  exact hf a t (hm a t hma) b u hfb

theorem amidst_atomic {f : I → S → α × S}
    (h : ∀ i t u, E s t → T i t (f i t).2 → E (f i t).2 u → Q (f i t).1 u) :
    (atomic f).Amidst E T s Q := by
  rintro _ u ⟨i, t, ht, hT, rfl, hu⟩
  exact h i t u ht hT hu

theorem amidst_ite {c : Prop} [Decidable c] {n : Routine I S α} (hm : c → m.Amidst E T s Q)
    (hn : ¬ c → n.Amidst E T s Q) : (if c then m else n).Amidst E T s Q := by
  split
  · exact hm ‹_›
  · exact hn ‹_›

/-- A routine whose sections all keep what the others keep. -/
theorem Takes.amidst {P : S → Prop} (hm : m.Takes T') (hE : ∀ s t, E s t → P s → P t)
    (hT : ∀ i s t, T i s t → T' i s t → P s → P t) (hs : P s) : m.Amidst E T s fun _ ↦ P := by
  induction m generalizing s with
  | ret a =>
    rintro _ t ⟨-, ht⟩
    exact hE s t ht hs
  | step next rest ih =>
    rintro b t ⟨i, u, hu, hi, h⟩
    exact ih i u (hm i u).2 (hT i u _ hi (hm i u).1 (hE s u hu hs)) b t h

end Routine

namespace System

variable {I S A : Type} {body : Nat → A → Routine I S Unit}

/-- Every section of an interleaving is as `C` has it, `C k i sys sys'` being about a section of
thread `k` that leads from `sys` to `sys'` with the input `i`. -/
def Through (body : Nat → A → Routine I S Unit) (C : Nat → I → System I S → System I S → Prop) :
    System I S → List (Act A I) → Prop
  | _, [] => True
  | sys, .spawn a :: acts => Through body C (sys.act body (.spawn a)) acts
  | sys, .advance k i :: acts =>
    C k i sys (sys.act body (.advance k i)) ∧ Through body C (sys.act body (.advance k i)) acts

/-- Whether it is can be found out by running it. -/
def decidableThrough (body : Nat → A → Routine I S Unit)
    (C : Nat → I → System I S → System I S → Prop) [∀ k i s t, Decidable (C k i s t)] :
    (sys : System I S) → (acts : List (Act A I)) → Decidable (Through body C sys acts)
  | _, [] => .isTrue trivial
  | sys, .spawn a :: acts => decidableThrough body C (sys.act body (.spawn a)) acts
  | sys, .advance k i :: acts =>
    have := decidableThrough body C (sys.act body (.advance k i)) acts
    inferInstanceAs (Decidable (_ ∧ _))

variable {C C' : Nat → I → System I S → System I S → Prop} {sys : System I S}
  {acts : List (Act A I)}

instance [∀ k i s t, Decidable (C k i s t)] : Decidable (Through body C sys acts) :=
  decidableThrough body C sys acts

/-- What is known of a section may come from all that has happened before it. -/
theorem Through.mono (h : Through body C sys acts)
    (hC : ∀ before k i after, acts = before ++ .advance k i :: after →
      C k i (sys.run body before) ((sys.run body before).act body (.advance k i)) →
      C' k i (sys.run body before) ((sys.run body before).act body (.advance k i))) :
    Through body C' sys acts := by
  induction acts generalizing sys with
  | nil => trivial
  | cons a acts ih =>
    have hlater (before : List (Act A I)) (k : Nat) (i : I) (after : List (Act A I))
        (hacts : acts = before ++ .advance k i :: after) :=
      hC (a :: before) k i after (congrArg (a :: ·) hacts)
    cases a with
    | spawn a => exact ih h hlater
    | advance k i => exact ⟨hC [] k i acts rfl h.1, ih h.2 hlater⟩

theorem through_append {acts' : List (Act A I)} :
    Through body C sys (acts ++ acts') ↔
      Through body C sys acts ∧ Through body C (sys.run body acts) acts' := by
  induction acts generalizing sys with
  | nil => exact ⟨fun h ↦ ⟨trivial, h⟩, And.right⟩
  | cons a acts ih =>
    cases a with
    | spawn a => exact ih
    | advance k i => exact (and_congr_right' ih).trans and_assoc.symm

/-- Thread `k` has been started and has come to its end. -/
def Ended (sys : System I S) (k : Nat) : Bool :=
  sys.threads[k]?.any fun m ↦
    match m with
    | .ret _ => true
    | .step _ _ => false

theorem threads_of_ended {sys : System I S} {k : Nat} (h : sys.Ended k = true) :
    sys.threads[k]? = some (.ret ()) := by
  rw [Ended] at h
  cases hk : sys.threads[k]? with
  | none =>
    rw [hk] at h
    cases h
  | some m =>
    rw [hk] at h
    cases m with
    | ret a => rfl
    | step next rest => cases h

/-- Every section that is still to come of thread `k` is a `T k`. -/
def TakesAt (T : Nat → I → S → S → Prop) (sys : System I S) : Prop :=
  ∀ (k : Nat) (m : Routine I S Unit), sys.threads[k]? = some m → m.Takes (T k)

variable {T : Nat → I → S → S → Prop}

theorem TakesAt.act (h : sys.TakesAt T) (hbody : ∀ k a, (body k a).Takes (T k)) (a : Act A I) :
    (sys.act body a).TakesAt T := by
  cases a with
  | spawn a => exact forall_threads_append h (hbody _ a)
  | advance k i =>
    rcases act_advance body sys k i with hact | ⟨next, rest, hk, hact⟩
    · rw [hact]
      exact h
    · rw [hact]
      exact forall_threads_set (fun j m _ ↦ h j m) (h k _ hk i sys.shared).2

theorem TakesAt.run (h : sys.TakesAt T) (hbody : ∀ k a, (body k a).Takes (T k))
    (acts : List (Act A I)) : (sys.run body acts).TakesAt T := by
  induction acts generalizing sys with
  | nil => exact h
  | cons a acts ih => exact ih (h.act hbody a)

/-- Thread `k` was started for `a`. -/
def Spawned (body : Nat → A → Routine I S Unit) (sys : System I S) (acts : List (Act A I)) (k : Nat)
    (a : A) : Prop :=
  ∃ before after, acts = before ++ .spawn a :: after ∧ (sys.run body before).threads.length = k

theorem Spawned.append {k : Nat} {a : A} (h : Spawned body sys acts k a) (later : List (Act A I)) :
    Spawned body sys (acts ++ later) k a := by
  obtain ⟨before, after, rfl, hk⟩ := h
  exact ⟨before, after ++ later, by simp, hk⟩

/-- What a thread is started for, if that is what is done. -/
def spawned : Act A I → Option A
  | .spawn a => some a
  | .advance .. => none

/-- There are as many threads as have been started. -/
theorem length_run (body : Nat → A → Routine I S Unit) (sys : System I S) (acts : List (Act A I)) :
    (sys.run body acts).threads.length =
      sys.threads.length + (acts.filterMap spawned).length := by
  induction acts generalizing sys with
  | nil => rfl
  | cons a acts ih =>
    change (System.run body (sys.act body a) acts).threads.length = _
    rw [ih]
    cases a with
    | spawn a =>
      simp [System.act, spawned]
      omega
    | advance k i =>
      rcases act_advance body sys k i with hact | ⟨next, rest, -, hact⟩ <;> rw [hact]
      · rfl
      · rw [length_set]
        rfl

theorem Spawned.lt {k : Nat} {a : A} (h : Spawned body sys acts k a) :
    k < (sys.run body acts).threads.length := by
  obtain ⟨before, after, rfl, rfl⟩ := h
  rw [length_run, length_run, filterMap_append]
  simp [spawned]

theorem Spawned.getElem? {s : S} {k : Nat} {a : A} (h : Spawned body ⟨s, []⟩ acts k a) :
    (acts.filterMap spawned)[k]? = some a := by
  obtain ⟨before, after, rfl, rfl⟩ := h
  rw [length_run, filterMap_append, getElem?_append_right (by simp)]
  simp [spawned]

/-- Every section that is still to come of a thread is one of what it was started for. -/
theorem takesAt_spawned {T : A → Nat → I → S → S → Prop} (hbody : ∀ k a, (body k a).Takes (T a k))
    (s : S) (acts : List (Act A I)) :
    (System.run body ⟨s, []⟩ acts).TakesAt fun k i t u ↦
      ∃ a, Spawned body ⟨s, []⟩ acts k a ∧ T a k i t u := by
  induction acts using List.reverseRecOn with
  | nil => exact fun k m hk ↦ by simp [run] at hk
  | append_singleton acts a ih =>
    have hlater (k : Nat) (m : Routine I S Unit)
        (hk : (System.run body ⟨s, []⟩ acts).threads[k]? = some m) :
        m.Takes fun i t u ↦ ∃ b, Spawned body ⟨s, []⟩ (acts ++ [a]) k b ∧ T b k i t u :=
      (ih k m hk).mono fun _ _ _ ⟨b, hspawned, h⟩ ↦ ⟨b, hspawned.append [a], h⟩
    rw [run_append]
    cases a with
    | spawn a =>
      refine forall_threads_append hlater ((hbody _ a).mono fun _ _ _ h ↦ ⟨a, ?_, h⟩)
      exact ⟨acts, [], rfl, rfl⟩
    | advance k i =>
      change TakesAt _ ((System.run body ⟨s, []⟩ acts).act body (.advance k i))
      rcases act_advance body (System.run body ⟨s, []⟩ acts) k i with hact | ⟨next, rest, hk, hact⟩
      · rw [hact]
        exact hlater
      · rw [hact]
        exact forall_threads_set (fun j m _ ↦ hlater j m) (hlater k _ hk i _).2

/-- **What has come about has come about in a section** of a thread that was started. -/
theorem exists_section {T : A → Nat → I → S → S → Prop} (hbody : ∀ k a, (body k a).Takes (T a k))
    {P : S → Prop} {s : S} (hs : ¬ P s) (h : P (System.run body ⟨s, []⟩ acts).shared) :
    ∃ a k i t u, Spawned body ⟨s, []⟩ acts k a ∧ .advance k i ∈ acts ∧ T a k i t u ∧
      ¬ P t ∧ P u := by
  induction acts using List.reverseRecOn with
  | nil => exact absurd h hs
  | append_singleton acts x ih =>
    by_cases hbefore : P (System.run body ⟨s, []⟩ acts).shared
    · obtain ⟨a, k, i, t, u, hspawned, hmem, hT⟩ := ih hbefore
      exact ⟨a, k, i, t, u, hspawned.append _, mem_append_left _ hmem, hT⟩
    have htakes := takesAt_spawned hbody s acts
    rw [run_append] at h
    change P ((System.run body ⟨s, []⟩ acts).act body x).shared at h
    cases x with
    | spawn a => exact absurd h hbefore
    | advance k i =>
      rcases act_advance body (System.run body ⟨s, []⟩ acts) k i with hact | ⟨next, rest, hk, hact⟩
      · rw [hact] at h
        exact absurd h hbefore
      rw [hact] at h
      obtain ⟨a, hspawned, hT⟩ := (htakes k _ hk i _).1
      exact ⟨a, k, i, _, _, hspawned.append _, mem_append_right _ (mem_singleton_self _), hT,
        hbefore, h⟩

/-- **An interleaving, as it looks from one of the threads**, once that has come to its end. -/
theorem run_amid {U : I → S → S → Prop} {E : S → S → Prop} (hrefl : ∀ s, E s s)
    (htrans : ∀ {s t u}, E s t → E t u → E s u) (hbody : ∀ k a, (body k a).Takes (T k)) {k : Nat}
    (hothers : ∀ j i s t, j ≠ k → T j i s t → E s t) {m : Routine I S Unit}
    (h : sys.TakesAt T) (hk : sys.threads[k]? = some m)
    (hthrough : Through body (fun j i s t ↦ j = k → U i s.shared t.shared) sys acts)
    (hended : (sys.run body acts).Ended k = true) :
    m.Amid E U sys.shared () (sys.run body acts).shared := by
  have hdone := threads_of_ended hended
  clear hended
  induction acts generalizing sys m with
  | nil =>
    obtain rfl := Option.some.inj (hk.symm.trans hdone)
    exact ⟨rfl, hrefl _⟩
  | cons a acts ih =>
    have hnext := h.act hbody a
    cases a with
    | spawn a =>
      refine ih hnext ?_ hthrough hdone
      rw [System.act, getElem?_append_left (List.getElem?_eq_some_iff.mp hk).1]
      exact hk
    | advance j i =>
      obtain ⟨hhere, hthrough⟩ := hthrough
      change (System.run body (sys.act body (.advance j i)) acts).threads[k]? = _ at hdone
      change m.Amid E U sys.shared ()
        (System.run body (sys.act body (.advance j i)) acts).shared
      rcases act_advance body sys j i with hact | ⟨next, rest, hj, hact⟩
      · rw [hact] at hnext hthrough hdone ⊢
        exact ih hnext hk hthrough hdone
      rw [hact] at hnext hhere hthrough hdone ⊢
      rcases eq_or_ne j k with rfl | hne
      · -- the thread itself takes a section
        obtain rfl := Option.some.inj (hk.symm.trans hj)
        have hlt := (List.getElem?_eq_some_iff.mp hk).1
        exact ⟨i, sys.shared, hrefl _, hhere rfl,
          ih hnext (getElem?_set_self hlt) hthrough hdone⟩
      · have henv := hothers j i _ _ hne (h j _ hj i sys.shared).1
        have hk' : (sys.threads.set j (rest i sys.shared))[k]? = some m := by
          rw [getElem?_set_ne hne]
          exact hk
        exact Routine.Amid.after (E := E) htrans (ih hnext hk' hthrough hdone) henv

end System
