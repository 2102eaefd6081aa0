import Mathlib

/-!
# Threads over a shared state

A `Routine I S α` is the text of a thread: a sequence of indivisible sections, each of which changes
a shared state `S`, with ordinary computation in between.  What a section does may depend on an
input `I` from outside, the time of day or the outcome of a system call.  Routines form a monad, so
a thread is written as a `do` block, one `Routine.atomic` for each stretch of the program during
which no other thread can run.

A `System` is a shared state and the threads at work on it.  An `Act` starts a thread or lets one of
them take its next section; a list of acts is an interleaving, and every interleaving is one.

The reasoning is by rely and guarantee.  A `Discipline` says what always holds of the shared state,
what each thread guarantees of its own sections, and what it relies on in those of the others;
`Allowed` is what is asked of the interleaving itself.  `Routine.Ok` is the judgement that a routine
lives up to a discipline and ends in a postcondition.  It has a rule for each way of building a
routine, and `Discipline.run_inv` draws the conclusion for the system: if every thread lives up to
the discipline in the initial state, the invariant holds after every allowed interleaving.
-/

/-- The text of a thread that returns an `α`. -/
inductive Routine (I S α : Type) : Type
  | ret (a : α)
  /-- An indivisible section, and how the thread goes on after it. -/
  | step (next : I → S → S) (rest : I → S → Routine I S α)

open List

namespace Routine

variable {I S α β : Type}

/-- One routine and then another. -/
def bind : Routine I S α → (α → Routine I S β) → Routine I S β
  | ret a, f => f a
  | step next rest, f => step next fun i s ↦ (rest i s).bind f

instance : Monad (Routine I S) where
  pure := ret
  bind := bind

/-- A single indivisible section. -/
def atomic (f : I → S → α × S) : Routine I S α :=
  step (fun i s ↦ (f i s).2) fun i s ↦ ret (f i s).1

/-- A section that only looks at the state. -/
def look (f : S → α) : Routine I S α := atomic fun _ s ↦ (f s, s)

/-- A section that only changes the state. -/
def change (f : I → S → S) : Routine I S Unit := atomic fun i s ↦ ((), f i s)

end Routine

/-! ## Systems -/

/-- A shared state and the threads at work on it, in the order they were started. -/
structure System (I S : Type) where
  shared : S
  /-- What is left of each thread. -/
  threads : List (Routine I S Unit)

/-- What can happen next in a system. -/
inductive Act (A I : Type)
  | spawn (a : A)
  /-- A thread takes its next section. -/
  | advance (k : Nat) (input : I)

namespace System

variable {I S A : Type}

/-- The state after an act.  A thread is told its number when it is started; to advance a thread
that has ended changes nothing. -/
def act (body : Nat → A → Routine I S Unit) (sys : System I S) : Act A I → System I S
  | .spawn a => { sys with threads := sys.threads ++ [body sys.threads.length a] }
  | .advance k i =>
    match sys.threads[k]? with
    | some (.step next rest) => ⟨next i sys.shared, sys.threads.set k (rest i sys.shared)⟩
    | _ => sys

/-- The state after an interleaving. -/
def run (body : Nat → A → Routine I S Unit) (sys : System I S) (acts : List (Act A I)) :
    System I S :=
  acts.foldl (act body) sys

/-- Every section of an interleaving is taken as `C` allows, `C k s t` being about a section of
thread `k` that leads from `s` to `t`. -/
def Along (body : Nat → A → Routine I S Unit) (C : Nat → S → S → Prop) :
    System I S → List (Act A I) → Prop
  | _, [] => True
  | sys, .spawn a :: acts => Along body C (sys.act body (.spawn a)) acts
  | sys, .advance k i :: acts =>
    C k sys.shared (sys.act body (.advance k i)).shared ∧
      Along body C (sys.act body (.advance k i)) acts

theorem run_append (body : Nat → A → Routine I S Unit) (sys : System I S)
    (acts acts' : List (Act A I)) :
    sys.run body (acts ++ acts') = (sys.run body acts).run body acts' :=
  foldl_append

/-- A thread that is to go on takes a section, or has come to its end. -/
theorem act_advance (body : Nat → A → Routine I S Unit) (sys : System I S) (k : Nat) (i : I) :
    sys.act body (.advance k i) = sys ∨ ∃ next rest, sys.threads[k]? = some (.step next rest) ∧
      sys.act body (.advance k i) = ⟨next i sys.shared, sys.threads.set k (rest i sys.shared)⟩ := by
  rw [System.act.eq_def]
  simp only
  split
  · rename_i next rest hk
    exact .inr ⟨next, rest, hk, rfl⟩
  · exact .inl rfl

section

variable {P : Nat → Routine I S Unit → Prop} {threads : List (Routine I S Unit)}
  {m' : Routine I S Unit}

theorem forall_threads_append (h : ∀ k m, threads[k]? = some m → P k m)
    (h' : P threads.length m') (k : Nat) (m : Routine I S Unit)
    (hm : (threads ++ [m'])[k]? = some m) : P k m := by
  rcases Nat.lt_trichotomy k threads.length with hk | rfl | hk
  · rw [getElem?_append_left hk] at hm
    exact h k m hm
  · rw [getElem?_concat_length] at hm
    exact Option.some.inj hm ▸ h'
  · rw [getElem?_eq_none (by rw [length_append, length_singleton]; omega)] at hm
    cases hm

/-- What holds of every thread when one of them has gone on. -/
theorem forall_threads_set {j : Nat}
    (h : ∀ k m, k ≠ j → threads[k]? = some m → P k m) (h' : P j m') (k : Nat)
    (m : Routine I S Unit) (hm : (threads.set j m')[k]? = some m) : P k m := by
  rcases eq_or_ne j k with rfl | hne
  · obtain ⟨-, rfl⟩ := List.getElem?_eq_some_iff.mp hm
    rwa [getElem_set_self]
  · rw [getElem?_set_ne hne] at hm
    exact h k m hne.symm hm

end

variable {body : Nat → A → Routine I S Unit} {C : Nat → S → S → Prop} {sys : System I S}
  {acts : List (Act A I)}

/-- **What holds at first and is kept by every act holds after every allowed interleaving.** -/
theorem run_induction {P : System I S → Prop}
    (hspawn : ∀ sys a, P sys → P (sys.act body (.spawn a)))
    (hadvance : ∀ sys k i, C k sys.shared (sys.act body (.advance k i)).shared → P sys →
      P (sys.act body (.advance k i)))
    (h : P sys) (hacts : Along body C sys acts) : P (sys.run body acts) := by
  induction acts generalizing sys with
  | nil => exact h
  | cons a acts ih =>
    cases a with
    | spawn a => exact ih (hspawn sys a h) hacts
    | advance k i => exact ih (hadvance sys k i hacts.1 h) hacts.2

/-- An interleaving is allowed if its beginning is and what follows it is from there. -/
theorem along_append {acts' : List (Act A I)} :
    Along body C sys (acts ++ acts') ↔
      Along body C sys acts ∧ Along body C (sys.run body acts) acts' := by
  induction acts generalizing sys with
  | nil => exact ⟨fun h ↦ ⟨trivial, h⟩, And.right⟩
  | cons a acts ih =>
    cases a with
    | spawn a => exact ih
    | advance k i => exact (and_congr_right' ih).trans and_assoc.symm

theorem along_of_forall (h : ∀ k s t, C k s t) : Along body C sys acts := by
  induction acts generalizing sys with
  | nil => trivial
  | cons a acts ih =>
    cases a with
    | spawn a => exact ih
    | advance k i => exact ⟨h _ _ _, ih⟩

/-- Whether an interleaving is allowed can be found out by running it. -/
def decidableAlong (body : Nat → A → Routine I S Unit) (C : Nat → S → S → Prop)
    [∀ k s t, Decidable (C k s t)] :
    (sys : System I S) → (acts : List (Act A I)) → Decidable (Along body C sys acts)
  | _, [] => .isTrue trivial
  | sys, .spawn a :: acts => decidableAlong body C (sys.act body (.spawn a)) acts
  | sys, .advance k i :: acts =>
    have := decidableAlong body C (sys.act body (.advance k i)) acts
    inferInstanceAs (Decidable (_ ∧ _))

instance {body : Nat → A → Routine I S Unit} {C : Nat → S → S → Prop}
    [∀ k s t, Decidable (C k s t)] {sys : System I S} {acts : List (Act A I)} :
    Decidable (Along body C sys acts) :=
  decidableAlong body C sys acts

end System

/-! ## Rely and guarantee -/

/-- A discipline for the threads of a system. -/
structure Discipline (S : Type) where
  /-- What always holds of the shared state. -/
  Inv : S → Prop
  /-- What is asked of the interleaving when a thread takes a section. -/
  Allowed : Nat → S → S → Prop
  /-- What a thread guarantees of its own sections. -/
  Guar : Nat → S → S → Prop
  /-- What a thread relies on in the sections of the others. -/
  Rely : Nat → S → S → Prop
  /-- Nothing happening is always fine. -/
  rely_refl : ∀ k s, Rely k s s
  /-- One thing after another is fine if each is. -/
  rely_trans : ∀ {k s t u}, Rely k s t → Rely k t u → Rely k s u
  /-- What one thread guarantees is what the others rely on. -/
  spread : ∀ {j k s t}, j ≠ k → Inv s → Allowed k s t → Guar k s t → Rely j s t

namespace Discipline

variable {S : Type} (D : Discipline S) (k : Nat)

/-- An assertion no other thread can break. -/
def Stable (P : S → Prop) : Prop := ∀ s t, P s → D.Rely k s t → P t

theorem stable_true : D.Stable k fun _ ↦ True := fun _ _ _ _ ↦ trivial

/-- The discipline that asks nothing of the interleaving: every section keeps the invariant,
whatever the others have done in the meantime. -/
def keeping (Inv : S → Prop) : Discipline S where
  Inv := Inv
  Allowed _ _ _ := True
  Guar _ _ _ := True
  Rely _ _ _ := True
  rely_refl _ _ := trivial
  rely_trans _ _ := trivial
  spread _ _ _ _ := trivial

end Discipline

namespace Routine

variable {I S α β : Type} (D : Discipline S) (k : Nat)

/-- Thread `k` can run this routine from `s` on: each of its sections keeps the invariant and the
guarantee whatever the others have done in the meantime, and at its end `Q` holds. -/
def Ok (Q : α → S → Prop) : Routine I S α → S → Prop
  | ret a, s => ∀ t, D.Rely k s t → D.Inv t → Q a t
  | step next rest, s => ∀ t, D.Rely k s t → D.Inv t → ∀ i, D.Allowed k t (next i t) →
      D.Inv (next i t) ∧ D.Guar k t (next i t) ∧ (rest i t).Ok Q (next i t)

variable {D k} {Q : α → S → Prop} {P : S → Prop} {s t : S}

variable {m : Routine I S α} {R : α → S → Prop}

/-- A routine that can be run can still be run after the others have done something. -/
theorem Ok.rely (h : m.Ok D k Q s) (hst : D.Rely k s t) : m.Ok D k Q t := by
  cases m with
  | ret a | step next rest => exact fun u htu hu ↦ h u (D.rely_trans hst htu) hu

/-- It is enough that a routine can be run wherever the others may have led. -/
theorem ok_of_rely (h : ∀ t, D.Rely k s t → D.Inv t → m.Ok D k Q t) : m.Ok D k Q s := by
  cases m with
  | ret a | step next rest => exact fun t hst ht ↦ h t hst ht t (D.rely_refl k t) ht

theorem ok_pure {a : α} (hQ : D.Stable k (Q a)) (h : Q a s) : (pure a : Routine I S α).Ok D k Q s :=
  fun t hst _ ↦ hQ s t h hst

/-- A section: from `P`, which no other thread can break, it leads to the postcondition. -/
theorem ok_atomic {f : I → S → α × S} (hP : D.Stable k P) (hQ : ∀ a, D.Stable k (Q a)) (hs : P s)
    (h : ∀ i t, P t → D.Inv t → D.Allowed k t (f i t).2 →
      D.Inv (f i t).2 ∧ D.Guar k t (f i t).2 ∧ Q (f i t).1 (f i t).2) : (atomic f).Ok D k Q s := by
  intro t hst ht i hallowed
  obtain ⟨hinv, hguar, hq⟩ := h i t (hP s t hs hst) ht hallowed
  exact ⟨hinv, hguar, fun u htu _ ↦ hQ _ _ u hq htu⟩

variable {f : α → Routine I S β}

/-- One routine and then another: the second is run from wherever the first can end. -/
theorem ok_bind {Q : β → S → Prop} (hm : m.Ok D k R s)
    (hf : ∀ a t, R a t → (f a).Ok D k Q t) : (m >>= f).Ok D k Q s := by
  induction m generalizing s with
  | ret a => exact ok_of_rely fun t hst ht ↦ hf a t (hm t hst ht)
  | step next rest ih =>
    intro t hst ht i hallowed
    obtain ⟨hinv, hguar, hrest⟩ := hm t hst ht i hallowed
    exact ⟨hinv, hguar, ih i t hrest⟩

theorem Ok.mono (h : m.Ok D k R s) (hRQ : ∀ a t, R a t → Q a t) : m.Ok D k Q s := by
  induction m generalizing s with
  | ret a => exact fun t hst ht ↦ hRQ a t (h t hst ht)
  | step next rest ih =>
    intro t hst ht i hallowed
    obtain ⟨hinv, hguar, hrest⟩ := h t hst ht i hallowed
    exact ⟨hinv, hguar, ih i t hrest⟩

/-! ## Routines whose sections all do the same sort of thing -/

/-- Every section of a routine, wherever and with whatever input it is taken, is a `T`. -/
def Takes (T : I → S → S → Prop) : Routine I S α → Prop
  | ret _ => True
  | step next rest => ∀ i s, T i s (next i s) ∧ (rest i s).Takes T

/-- The same of a `T` that does not depend on the input. -/
def Steps (T : S → S → Prop) : Routine I S α → Prop
  | ret _ => True
  | step next rest => ∀ i s, T s (next i s) ∧ (rest i s).Steps T

section

variable {T : I → S → S → Prop}

theorem takes_pure {a : α} : (pure a : Routine I S α).Takes T := trivial

theorem takes_atomic {f : I → S → α × S} (h : ∀ i s, T i s (f i s).2) : (atomic f).Takes T :=
  fun i s ↦ ⟨h i s, trivial⟩

theorem takes_look {f : S → α} (h : ∀ i s, T i s s) : (look f : Routine I S α).Takes T :=
  takes_atomic h

theorem takes_change {f : I → S → S} (h : ∀ i s, T i s (f i s)) : (change f).Takes T :=
  takes_atomic h

theorem takes_bind {m : Routine I S α} (hm : m.Takes T)
    (hf : ∀ a, (f a).Takes T) : (m >>= f).Takes T := by
  induction m with
  | ret a => exact hf a
  | step next rest ih => exact fun i s ↦ ⟨(hm i s).1, ih i s (hm i s).2⟩

theorem takes_ite {c : Prop} [Decidable c] {m n : Routine I S α} (hm : m.Takes T)
    (hn : n.Takes T) : (if c then m else n).Takes T := by
  split
  · exact hm
  · exact hn

theorem takes_foldlM {f : β → α → Routine I S β} (hf : ∀ b a, (f b a).Takes T) (list : List α)
    (b : β) : (list.foldlM f b).Takes T := by
  induction list generalizing b with
  | nil => exact takes_pure
  | cons a list ih =>
    rw [foldlM_cons]
    exact takes_bind (hf b a) ih

theorem Takes.mono {T' : I → S → S → Prop} {m : Routine I S α} (hm : m.Takes T)
    (hT : ∀ i s t, T i s t → T' i s t) : m.Takes T' := by
  induction m with
  | ret a => trivial
  | step next rest ih => exact fun i s ↦ ⟨hT i s _ (hm i s).1, ih i s (hm i s).2⟩

theorem takes_iff_steps {T : S → S → Prop} {m : Routine I S α} :
    m.Takes (fun _ ↦ T) ↔ m.Steps T := by
  induction m with
  | ret a => exact Iff.rfl
  | step next rest ih => exact forall₂_congr fun i s ↦ and_congr_right' (ih i s)

theorem Takes.steps {T' : S → S → Prop} {m : Routine I S α} (hm : m.Takes T)
    (hT : ∀ i s t, T i s t → T' s t) : m.Steps T' :=
  takes_iff_steps.mp (hm.mono hT)

/-- A routine whose sections all keep an assertion can be run wherever it holds. -/
theorem Takes.ok {m : Routine I S α} (hm : m.Takes T) (hP : D.Stable k P)
    (hT : ∀ i s t, P s → D.Inv s → D.Allowed k s t → T i s t → D.Inv t ∧ D.Guar k s t ∧ P t)
    (hs : P s) : m.Ok D k (fun _ ↦ P) s := by
  induction m generalizing s with
  | ret a => exact fun t hst _ ↦ hP s t hs hst
  | step next rest ih =>
    intro t hst ht i hallowed
    obtain ⟨hinv, hguar, hp⟩ := hT i t _ (hP s t hs hst) ht hallowed (hm i t).1
    exact ⟨hinv, hguar, ih i t (hm i t).2 hp⟩

theorem Steps.ok {T : S → S → Prop} {m : Routine I S α} (hm : m.Steps T) (hP : D.Stable k P)
    (hT : ∀ s t, P s → D.Inv s → D.Allowed k s t → T s t → D.Inv t ∧ D.Guar k s t ∧ P t)
    (hs : P s) : m.Ok D k (fun _ ↦ P) s :=
  (takes_iff_steps.mpr hm).ok hP (fun _ ↦ hT) hs

end

end Routine

/-! ## The whole system -/

namespace System

variable {I S A : Type} {body : Nat → A → Routine I S Unit} {T : I → S → S → Prop}
  {sys : System I S}

/-- Every section that is still to come is a `T`. -/
def Takes (T : I → S → S → Prop) (sys : System I S) : Prop := ∀ m ∈ sys.threads, m.Takes T

/-- What happens next, if anything, is a `T`. -/
theorem Takes.act (h : sys.Takes T) (hbody : ∀ k a, (body k a).Takes T) (a : Act A I) :
    (sys.act body a).Takes T ∧
      ((sys.act body a).shared = sys.shared ∨ ∃ i, T i sys.shared (sys.act body a).shared) := by
  cases a with
  | spawn a =>
    refine ⟨fun m hm ↦ ?_, .inl rfl⟩
    rcases mem_append.mp hm with hm | hm
    · exact h m hm
    · rw [mem_singleton.mp hm]
      exact hbody _ a
  | advance k i =>
    rcases sys.act_advance body k i with hact | ⟨next, rest, hk, hact⟩ <;> rw [hact]
    · exact ⟨h, .inl rfl⟩
    · have hstep := h _ (mem_of_getElem? hk) i sys.shared
      refine ⟨fun m hm ↦ ?_, .inr ⟨i, hstep.1⟩⟩
      rcases mem_or_eq_of_mem_set hm with hm | rfl
      · exact h m hm
      · exact hstep.2

/-- What a run leads to is related by whatever relates the ends of every section. -/
theorem Takes.run (h : sys.Takes T) (hbody : ∀ k a, (body k a).Takes T) {R : S → S → Prop}
    (hrefl : ∀ s, R s s) (htrans : ∀ {s t u}, R s t → R t u → R s u)
    (hT : ∀ i s t, T i s t → R s t) (acts : List (Act A I)) :
    (sys.run body acts).Takes T ∧ R sys.shared (sys.run body acts).shared := by
  induction acts generalizing sys with
  | nil => exact ⟨h, hrefl _⟩
  | cons a acts ih =>
    obtain ⟨htakes, hshared⟩ := h.act hbody a
    obtain ⟨htakes', hrest⟩ := ih htakes
    refine ⟨htakes', ?_⟩
    rcases hshared with hshared | ⟨i, hi⟩
    · rw [← hshared]
      exact hrest
    · exact htrans (hT i _ _ hi) hrest

end System

namespace Discipline

variable {I S A : Type} (D : Discipline S) (body : Nat → A → Routine I S Unit)

/-- What holds of the system throughout a run from `s₀`: the invariant, that every thread can go on,
and that for the threads still to come nothing has happened they could not rely on. -/
structure Runs (s₀ : S) (sys : System I S) : Prop where
  inv : D.Inv sys.shared
  ok : ∀ k (m : Routine I S Unit), sys.threads[k]? = some m →
    m.Ok D k (fun _ _ ↦ True) sys.shared
  rely : ∀ k, sys.threads.length ≤ k → D.Rely k s₀ sys.shared

variable {D body} {s₀ : S} {sys : System I S}

theorem runs_boot (hinv : D.Inv s₀) : D.Runs s₀ (⟨s₀, []⟩ : System I S) := by
  refine ⟨hinv, fun k m hm ↦ ?_, fun k _ ↦ D.rely_refl k s₀⟩
  rw [getElem?_nil] at hm
  cases hm

theorem Runs.spawn (h : D.Runs s₀ sys)
    (hbody : ∀ k a, (body k a).Ok D k (fun _ _ ↦ True) s₀) (a : A) :
    D.Runs s₀ (sys.act body (.spawn a)) := by
  refine ⟨h.inv, System.forall_threads_append h.ok ?_, fun k hk ↦ h.rely k ?_⟩
  · exact (hbody _ a).rely (h.rely _ (Nat.le_refl _))
  · rw [System.act, length_append] at hk
    omega

theorem Runs.advance (h : D.Runs s₀ sys) (k : Nat) (i : I)
    (hallowed : D.Allowed k sys.shared (sys.act body (.advance k i)).shared) :
    D.Runs s₀ (sys.act body (.advance k i)) := by
  rcases sys.act_advance body k i with hact | ⟨next, rest, hk, hact⟩ <;> rw [hact] at hallowed ⊢
  · exact h
  · obtain ⟨hinv, hguar, hrest⟩ := h.ok k _ hk _ (D.rely_refl _ _) h.inv i hallowed
    have hlt := (List.getElem?_eq_some_iff.mp hk).1
    refine ⟨hinv, System.forall_threads_set (fun j m hne hm ↦ ?_) hrest, fun j hj ↦ ?_⟩
    · exact (h.ok j m hm).rely (D.spread hne h.inv hallowed hguar)
    · rw [length_set] at hj
      exact D.rely_trans (h.rely j hj) (D.spread (by omega) h.inv hallowed hguar)

/-- **If every thread lives up to the discipline, the invariant holds after every allowed
interleaving.** -/
theorem run_inv (hinv : D.Inv s₀) (hbody : ∀ k a, (body k a).Ok D k (fun _ _ ↦ True) s₀)
    {acts : List (Act A I)} (hacts : System.Along body D.Allowed ⟨s₀, []⟩ acts) :
    D.Inv (System.run body ⟨s₀, []⟩ acts).shared :=
  (System.run_induction (P := D.Runs s₀) (fun _ a h ↦ h.spawn hbody a)
    (fun _ k i hallowed h ↦ h.advance k i hallowed) (runs_boot hinv) hacts).inv

end Discipline
