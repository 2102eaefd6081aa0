import Noobia.Lib.Amid

/-!
# Where a thread takes a section

An invariant is about the shared state alone.  To say that a thread does a thing only under certain
circumstances, and what the thread has in its local variables when it does, one has to look at what
is left of its text as well: the values it has read are in there.

`Routine.Sited J` is the judgement `Routine.Ok` with that added.  Each time the thread takes a
section, `J` holds of what is left of it, with this section first, and of the state it finds.
`Discipline.run_sited` draws the conclusion for the system.

What a thread has read stays true of the moment it read it, and `System.Took` is how to speak of
that moment: a section of the interleaving that thread took, with the state it found.  A discipline
that allows only sections of the interleaving at hand lets an assertion refer to them.
-/

open List

namespace Routine

variable {I S α β : Type} (D : Discipline S) (k : Nat)

theorem bind_assoc {γ : Type} (m : Routine I S α) (f : α → Routine I S β)
    (g : β → Routine I S γ) : m >>= f >>= g = m >>= fun a ↦ f a >>= g := by
  induction m with
  | ret a => rfl
  | step next rest ih => exact congrArg (step next) (funext fun i ↦ funext fun s ↦ ih i s)

/-- Thread `k` can run this routine from `s` on, and takes each section where `J` holds. -/
def Sited (J : Routine I S α → S → Prop) : Routine I S α → S → Prop
  | ret _, _ => True
  | step next rest, s => ∀ t, D.Rely k s t → D.Inv t →
    J (step next rest) t ∧ ∀ i, D.Allowed k t (next i t) →
      D.Inv (next i t) ∧ D.Guar k t (next i t) ∧ (rest i t).Sited J (next i t)

variable {D k} {J : Routine I S α → S → Prop} {s t : S} {m : Routine I S α}

theorem Sited.ok (h : m.Sited D k J s) : m.Ok D k (fun _ _ ↦ True) s := by
  induction m generalizing s with
  | ret a => exact fun _ _ _ ↦ trivial
  | step next rest ih =>
    intro t hst ht i hallowed
    obtain ⟨hinv, hguar, hrest⟩ := (h t hst ht).2 i hallowed
    exact ⟨hinv, hguar, ih i t hrest⟩

theorem Sited.rely (h : m.Sited D k J s) (hst : D.Rely k s t) : m.Sited D k J t := by
  cases m with
  | ret a => trivial
  | step next rest => exact fun u htu hu ↦ h u (D.rely_trans hst htu) hu

theorem sited_of_rely (h : ∀ t, D.Rely k s t → D.Inv t → m.Sited D k J t) : m.Sited D k J s := by
  cases m with
  | ret a => trivial
  | step next rest => exact fun t hst ht ↦ h t hst ht t (D.rely_refl k t) ht

variable {T : S → S → Prop}

/-- A routine of which every section is a `T`, and another after it. -/
theorem Steps.sited_bind {J : Routine I S β → S → Prop} {R : α → S → Prop}
    {f : α → Routine I S β} (hsteps : m.Steps T)
    (hT : ∀ (next : I → S → S) (rest : I → S → Routine I S β) (t : S), D.Inv t →
      (∀ i, T t (next i t)) → J (step next rest) t)
    (hm : m.Ok D k R s) (hf : ∀ a t, R a t → (f a).Sited D k J t) : (m >>= f).Sited D k J s := by
  induction m generalizing s with
  | ret a => exact sited_of_rely fun t hst ht ↦ hf a t (hm t hst ht)
  | step next rest ih =>
    intro t hst ht
    refine ⟨hT _ _ t ht fun i ↦ (hsteps i t).1, fun i hallowed ↦ ?_⟩
    obtain ⟨hinv, hguar, hrest⟩ := hm t hst ht i hallowed
    exact ⟨hinv, hguar, ih i t (hsteps i t).2 hrest⟩

variable {Q : α → S → Prop}

theorem sited_atomic_bind {J : Routine I S β → S → Prop} {P : S → Prop}
    {f : I → S → α × S} {g : α → Routine I S β} (hP : D.Stable k P) (hs : P s)
    (hJ : ∀ t, P t → D.Inv t → J (atomic f >>= g) t)
    (h : ∀ i t, P t → D.Inv t → D.Allowed k t (f i t).2 →
      D.Inv (f i t).2 ∧ D.Guar k t (f i t).2 ∧ Q (f i t).1 (f i t).2)
    (hg : ∀ a t, Q a t → (g a).Sited D k J t) : (atomic f >>= g).Sited D k J s := by
  intro t hst ht
  refine ⟨hJ t (hP s t hs hst) ht, fun i hallowed ↦ ?_⟩
  obtain ⟨hinv, hguar, hq⟩ := h i t (hP s t hs hst) ht hallowed
  exact ⟨hinv, hguar, hg _ _ hq⟩

/-- A routine whose every section may be taken anywhere. -/
theorem Ok.sited (h : m.Ok D k Q s) (hsteps : m.Steps T)
    (hT : ∀ (next : I → S → S) (rest : I → S → Routine I S α) (t : S), D.Inv t →
      (∀ i, T t (next i t)) → J (step next rest) t) : m.Sited D k J s := by
  induction m generalizing s with
  | ret a => trivial
  | step next rest ih =>
    intro t hst ht
    refine ⟨hT _ _ t ht fun i ↦ (hsteps i t).1, fun i hallowed ↦ ?_⟩
    obtain ⟨hinv, hguar, hrest⟩ := h t hst ht i hallowed
    exact ⟨hinv, hguar, ih i t hrest (hsteps i t).2⟩

end Routine

namespace System

variable {I S A : Type} {body : Nat → A → Routine I S Unit} {C : Nat → S → S → Prop}
  {sys : System I S} {acts : List (Act A I)}

/-- Somewhere in an interleaving thread `k` is let go on, which leads from `s` to `t`. -/
def Took (body : Nat → A → Routine I S Unit) (sys : System I S) (acts : List (Act A I)) (k : Nat)
    (s t : S) : Prop :=
  ∃ before i after, acts = before ++ .advance k i :: after ∧ (sys.run body before).shared = s ∧
    ((sys.run body before).act body (.advance k i)).shared = t

theorem along_took_of_append (before : List (Act A I))
    (h : Along body C (sys.run body before) acts) :
    Along body (fun k s t ↦ C k s t ∧ Took body sys (before ++ acts) k s t)
      (sys.run body before) acts := by
  induction acts generalizing before with
  | nil => trivial
  | cons a acts ih =>
    have hrun : sys.run body (before ++ [a]) = (sys.run body before).act body a :=
      run_append body sys before [a]
    have hacts : before ++ [a] ++ acts = before ++ a :: acts := append_assoc _ _ _
    cases a with
    | spawn a =>
      have hrest := ih (before ++ [.spawn a]) (hrun ▸ h)
      rwa [hacts, hrun] at hrest
    | advance k i =>
      have hrest := ih (before ++ [.advance k i]) (hrun ▸ h.2)
      rw [hacts, hrun] at hrest
      exact ⟨⟨h.1, before, i, acts, rfl, rfl, rfl⟩, hrest⟩

/-- Every section of an interleaving is one that a thread takes in it. -/
theorem along_took (h : Along body C sys acts) :
    Along body (fun k s t ↦ C k s t ∧ Took body sys acts k s t) sys acts :=
  along_took_of_append [] h

end System

namespace Discipline

variable {I S A : Type} {D : Discipline S} {body : Nat → A → Routine I S Unit}
  {J : Nat → Routine I S Unit → S → Prop} {s₀ : S}

/-- Every thread is at a place where it can go on as `J` has it. -/
def AtSites (D : Discipline S) (J : Nat → Routine I S Unit → S → Prop) (sys : System I S) : Prop :=
  ∀ k (m : Routine I S Unit), sys.threads[k]? = some m → m.Sited D k (J k) sys.shared

variable {sys : System I S}

theorem AtSites.spawn (h : AtSites D J sys) (hruns : D.Runs s₀ sys)
    (hbody : ∀ k a, (body k a).Sited D k (J k) s₀) (a : A) :
    AtSites D J (sys.act body (.spawn a)) :=
  System.forall_threads_append h ((hbody _ a).rely (hruns.rely _ (Nat.le_refl _)))

theorem AtSites.advance (h : AtSites D J sys) (hinv : D.Inv sys.shared) (k : Nat)
    (i : I) (hallowed : D.Allowed k sys.shared (sys.act body (.advance k i)).shared) :
    AtSites D J (sys.act body (.advance k i)) := by
  rcases System.act_advance body sys k i with hact | ⟨next, rest, hk, hact⟩
  · rw [hact]
    exact h
  rw [hact] at hallowed ⊢
  obtain ⟨-, hguar, hrest⟩ := (h k _ hk _ (D.rely_refl _ _) hinv).2 i hallowed
  exact System.forall_threads_set (fun j m hne hm ↦
    (h j m hm).rely (D.spread hne hinv hallowed hguar)) hrest

/-- **In an allowed interleaving every section is taken where `J` holds.** -/
theorem run_sited (hinv : D.Inv s₀) (hbody : ∀ k a, (body k a).Sited D k (J k) s₀)
    {acts : List (Act A I)} (hacts : System.Along body D.Allowed ⟨s₀, []⟩ acts) :
    D.Inv (System.run body ⟨s₀, []⟩ acts).shared ∧ AtSites D J (System.run body ⟨s₀, []⟩ acts) := by
  have hrun := System.run_induction (P := fun sys ↦ D.Runs s₀ sys ∧ AtSites D J sys)
    (fun _ a h ↦ ⟨h.1.spawn (fun k a ↦ (hbody k a).ok) a, h.2.spawn h.1 hbody a⟩)
    (fun _ k i hallowed h ↦ ⟨h.1.advance k i hallowed, h.2.advance h.1.inv k i hallowed⟩)
    ⟨runs_boot hinv, nofun⟩ hacts
  exact ⟨hrun.1.inv, hrun.2⟩

end Discipline
