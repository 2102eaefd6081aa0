import Noobia.Lib.Crash

/-!
# Operations that fail

An operation on a disk is done, or it fails half way and says so, or the power fails in the middle
of it.  Which of these happens is its `Outcome`, and a procedure is given one for every operation it
may come to.  As in `Crash`, a procedure that the power fails in gives up in the sense of `Proc`,
and `Proc.Wp` is the judgement to reason with; `Fault.wp_op_bind` is its rule for operations.
`Fault.Agrees` compares such a procedure, if nothing goes wrong, with one of `Crash`.
-/

/-- What becomes of an operation.  A write that is not done has got so many items through. -/
inductive Outcome
  | done
  | failed (n : Nat)
  | cut (n : Nat)
  deriving DecidableEq

/-- The power fails. -/
def Outcome.stops : Outcome → Prop
  | .cut _ => True
  | .done => False
  | .failed _ => False

/-- How much is written of so much. -/
def Outcome.written (length : Nat) : Outcome → Nat
  | .done => length
  | .failed n => min n length
  | .cut n => min n length

theorem Outcome.written_le (length : Nat) (o : Outcome) : o.written length ≤ length := by
  cases o with
  | done => exact Nat.le_refl _
  | failed n | cut n => exact Nat.min_le_right ..

namespace Fault

open Proc (Wp)

variable {D α β : Type}

/-- An operation that may be done in part. -/
def op (o : Outcome) (whole : D → α × D) (part : Nat → D → α × D) : Proc D α := fun d ↦
  match o with
  | .done => (some (whole d).1, (whole d).2)
  | .failed n => (some (part n d).1, (part n d).2)
  | .cut n => (none, (part n d).2)

theorem wp_op_bind {o : Outcome} {whole : D → α × D} {part : Nat → D → α × D} {k : α → Proc D β}
    {Q : β → D → Prop} {E : D → Prop} {d : D}
    (hdone : o = .done → Wp (k (whole d).1) Q E (whole d).2)
    (hfailed : ∀ n, o = .failed n → Wp (k (part n d).1) Q E (part n d).2)
    (hcut : ∀ n, o = .cut n → E (part n d).2) : Wp (op o whole part >>= k) Q E d := by
  refine Proc.wp_bind ?_
  cases o with
  | done => exact hdone rfl
  | failed n => exact hfailed n rfl
  | cut n => exact hcut n rfl

/-- If nothing goes wrong the two procedures do the same. -/
def Agrees (m : Proc D α) (m' : Proc (Powered D) α) : Prop :=
  ∀ d, m' ⟨d, none⟩ = ((m d).1, ⟨(m d).2, none⟩)

theorem agrees_pure (a : α) : Agrees (pure a : Proc D α) (pure a) := fun _ ↦ rfl

theorem agrees_op (f : D → α × D) (part : Nat → D → α × D) :
    Agrees (op .done f part) (Crash.op f) := fun _ ↦ rfl

theorem agrees_read (f : D → α) : Agrees (Proc.read f) (Crash.look f) := fun _ ↦ rfl

theorem Agrees.bind {m : Proc D α} {m' : Proc (Powered D) α} {k : α → Proc D β}
    {k' : α → Proc (Powered D) β} (hm : Agrees m m') (hk : ∀ a, Agrees (k a) (k' a)) :
    Agrees (m >>= k) (m' >>= k') := by
  intro d
  cases h : m d with
  | mk r d' =>
    have h' := hm d
    rw [h] at h'
    cases r with
    | none => rw [Proc.bind_of_none h, Proc.bind_of_none h']
    | some a => rw [Proc.bind_of_some h, Proc.bind_of_some h', hk a d']

theorem Agrees.ite {c : Prop} [Decidable c] {m n : Proc D α} {m' n' : Proc (Powered D) α}
    (hm : Agrees m m') (hn : Agrees n n') :
    Agrees (if c then m else n) (if c then m' else n') := by
  split
  · exact hm
  · exact hn

/-! ## Files -/

variable {P : Type} [DecidableEq P]

/-- Remove a file, if that can be done. -/
def remove (o : Outcome) (path : P) : Proc (Files P α) Bool :=
  op o (Files.remove path) fun _ d ↦ (false, d)

/-- Create an empty file, or empty the one there is, if that can be done. -/
def create (o : Outcome) (path : P) : Proc (Files P α) Bool :=
  op o (Files.create path) fun _ d ↦ (false, d)

/-- Write at the end of a file, as far as it gets. -/
def write (o : Outcome) (path : P) (data : List α) : Proc (Files P α) Nat :=
  op o (Files.write path data) fun n ↦ Files.write path (data.take n)

/-- A write and what follows it: so much has been written. -/
theorem wp_write_bind {o : Outcome} {path : P} {data : List α} {k : Nat → Proc (Files P α) β}
    {Q : β → Files P α → Prop} {E : Files P α → Prop} {d : Files P α}
    (hk : ¬ o.stops → Wp (k (o.written data.length)) Q E
      (Files.write path (data.take (o.written data.length)) d).2)
    (hcut : o.stops → E (Files.write path (data.take (o.written data.length)) d).2) :
    Wp (write o path data >>= k) Q E d := by
  have hmin (n : Nat) : data.take (min n data.length) = data.take n := by
    rw [List.take_eq_take_iff]
    omega
  refine wp_op_bind (fun ho ↦ ?_) (fun n ho ↦ ?_) fun n ho ↦ ?_
  · subst ho
    have h := hk id
    rw [Outcome.written, List.take_length] at h
    exact h
  · subst ho
    have h := hk id
    rw [Outcome.written, hmin] at h
    have hlength : (Files.write path (data.take n) d).1 = min n data.length := List.length_take
    rw [hlength]
    exact h
  · subst ho
    have h := hcut trivial
    rw [Outcome.written, hmin] at h
    exact h

/-- Rename a file, if that can be done. -/
def rename (o : Outcome) (path path' : P) : Proc (Files P α) Bool :=
  op o (Files.rename path path') fun _ d ↦ (false, d)

/-- Is there such a file? -/
def present (path : P) : Proc (Files P α) Bool := Proc.read fun d ↦ (d path).isSome

end Fault
