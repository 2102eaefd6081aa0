import Mathlib

/-!
# Call-backs that re-enter the component that made them

A component with state `S` hands control to a function it knows nothing about, and before that
function returns it may call the component back through its interface `Op`, any number of times and
with sight of everything.  `Script W S Op α` is such a function: it looks at a world `W` of its own
and at the component, and answers with a value, the calls it makes on the way, and its new world.
A call-back that chooses its next call by the outcome of the last one is a `Script` too, since the
component is deterministic and the outcomes can be computed from the state it is shown.

`Script.exec` lets the calls happen.  What a component needs to know about a call-back is then one
fact, `Script.exec_invariant`: whatever every call of the interface keeps, the call-back keeps.
-/

universe u v w x

/-- A call-back into a component with state `S` and interface `Op`. -/
def Script (W : Type u) (S : Type v) (Op : Type w) (α : Type x) : Type (max u v w x) :=
  W → S → α × List Op × W

namespace Script

open List

variable {W : Type u} {S : Type v} {Op : Type w} {α : Type x}

instance : Pure (Script W S Op) where
  pure a := fun w _ ↦ (a, [], w)

/-- The value the call-back answers with. -/
def answer (m : Script W S Op α) (w : W) (s : S) : α := (m w s).1

/-- The calls it makes into the component, in order. -/
def calls (m : Script W S Op α) (w : W) (s : S) : List Op := (m w s).2.1

/-- Its own world afterwards. -/
def world (m : Script W S Op α) (w : W) (s : S) : W := (m w s).2.2

/-- Run the call-back and let its calls happen, `perform` being what a call does. -/
def exec (perform : Op → W × S → W × S) (m : Script W S Op α) (p : W × S) : α × (W × S) :=
  (m.answer p.1 p.2, (m.calls p.1 p.2).foldl (fun q op ↦ perform op q) (m.world p.1 p.2, p.2))

/-- Every call the call-back makes is one of those `P` allows. -/
def Issues (P : Op → Prop) (m : Script W S Op α) : Prop :=
  ∀ w s, ∀ op ∈ m.calls w s, P op

theorem issues_true (m : Script W S Op α) : m.Issues fun _ ↦ True := fun _ _ _ _ ↦ trivial

variable {m : Script W S Op α} {p : W × S} {perform : Op → W × S → W × S}

/-- **What every allowed call keeps, the call-back keeps.** -/
theorem exec_invariant (perform : Op → W × S → W × S) {P : Op → Prop} {I : S → Prop}
    (hm : m.Issues P) (hperform : ∀ op q, P op → I q.2 → I (perform op q).2) (hp : I p.2) :
    I (exec perform m p).2.2 := by
  have hfold : ∀ (ops : List Op) (q : W × S), (∀ op ∈ ops, P op) → I q.2 →
      I (ops.foldl (fun q op ↦ perform op q) q).2 := by
    intro ops
    induction ops with
    | nil => intro q _ hq; exact hq
    | cons op ops ih =>
      intro q hops hq
      exact ih _ (fun o ho ↦ hops o (mem_cons_of_mem _ ho))
        (hperform op q (hops op (mem_cons_self ..)) hq)
  exact hfold _ _ (hm p.1 p.2) hp

/-- The same for a property of the world as well, if the call-back keeps it on its own. -/
theorem exec_induction (perform : Op → W × S → W × S) {I : W × S → Prop}
    (hperform : ∀ op q, I q → I (perform op q)) (hp : I (m.world p.1 p.2, p.2)) :
    I (exec perform m p).2 := by
  have hfold : ∀ (ops : List Op) (q : W × S), I q → I (ops.foldl (fun q op ↦ perform op q) q) := by
    intro ops
    induction ops with
    | nil => intro q hq; exact hq
    | cons op ops ih =>
      intro q hq
      exact ih _ (hperform op q hq)
  exact hfold _ _ hp

/-! ## A world with something beside it -/

/-- The call-back in a world that has something else in it, which it leaves alone. -/
def beside (G : Type u) (m : Script W S Op α) : Script (W × G) S Op α :=
  fun w s ↦ (m.answer w.1 s, m.calls w.1 s, (m.world w.1 s, w.2))

/-- The component with that something forgotten. -/
def forget {G : Type u} (p : (W × G) × S) : W × S := (p.1.1, p.2)

theorem exec_beside {G : Type u} {perform' : Op → (W × G) × S → (W × G) × S}
    (h : ∀ op q, forget (perform' op q) = perform op (forget q)) (m : Script W S Op α)
    (p : (W × G) × S) :
    (exec perform' (m.beside G) p).1 = (exec perform m (forget p)).1 ∧
      forget (exec perform' (m.beside G) p).2 = (exec perform m (forget p)).2 := by
  refine ⟨rfl, ?_⟩
  have hfold : ∀ (ops : List Op) (q : (W × G) × S),
      forget (ops.foldl (fun q op ↦ perform' op q) q) =
        ops.foldl (fun q op ↦ perform op q) (forget q) := by
    intro ops
    induction ops with
    | nil => intro q; rfl
    | cons op ops ih =>
      intro q
      rw [foldl_cons, foldl_cons, ih, h]
  exact hfold _ _

/-- If the calls leave the world alone, it is as the call-back left it. -/
theorem exec_apart (perform : Op → S → S) (m : Script W S Op α) (p : W × S) :
    exec (fun op q ↦ (q.1, perform op q.2)) m p =
      (m.answer p.1 p.2, m.world p.1 p.2,
        (m.calls p.1 p.2).foldl (fun s op ↦ perform op s) p.2) := by
  have hfold : ∀ (ops : List Op) (w : W) (s : S),
      ops.foldl (fun q op ↦ (q.1, perform op q.2)) (w, s) =
        (w, ops.foldl (fun s op ↦ perform op s) s) := by
    intro ops
    induction ops with
    | nil => intro w s; rfl
    | cons op ops ih =>
      intro w s
      rw [foldl_cons, foldl_cons, ih]
  rw [exec, hfold]

/-- A call-back that makes no calls leaves the component as it was. -/
theorem exec_of_no_calls (h : m.calls p.1 p.2 = []) :
    exec perform m p = (m.answer p.1 p.2, (m.world p.1 p.2, p.2)) := by
  rw [exec, h, foldl_nil]

end Script
