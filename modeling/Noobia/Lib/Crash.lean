import Noobia.Lib.Proc

/-!
# Power cuts

A procedure that works on a disk can be stopped between any two of its operations, and what matters
then is what it leaves on the disk.  Here the power is part of the state: `Powered D` is a disk and
the number of operations the power will last for, and an operation that finds none left gives up,
in the sense of `Proc`, on the disk as it is.

`Crash.Safe m C Q d` is the judgement to work with.  From the disk `d`, and for whatever time the
power lasts, a procedure that is cut short leaves a disk on which `C` holds, and one that is not
ends with `Q`; and only a power cut stops it.  As for `Proc.Wp` there is a rule for each way of
building a procedure, so that a proof walks down the text and proves `C` once in front of each
operation.

The second half is a disk of named files with four atomic operations.
-/

/-- A disk and the number of operations left until the power fails, if it does. -/
structure Powered (D : Type) where
  disk : D
  /-- The operations left; `none` if the power does not fail. -/
  left : Option Nat

namespace Crash

variable {D α β : Type}

/-- An operation on the disk, unless the power has failed. -/
def op (f : D → α × D) : Proc (Powered D) α := fun s ↦
  if s.left = some 0 then (none, s)
  else (some (f s.disk).1, ⟨(f s.disk).2, s.left.map (· - 1)⟩)

/-- Look at the disk. -/
def look (f : D → α) : Proc (Powered D) α := Proc.read fun s ↦ f s.disk

/-- Wherever the power fails `C` holds of the disk; if it does not, `m` ends with `Q`. -/
def Safe (m : Proc (Powered D) α) (C : D → Prop) (Q : α → D → Prop) (d : D) : Prop :=
  ∀ left, Proc.Wp m (fun a s ↦ Q a s.disk ∧ (left = none → s.left = none))
    (fun s ↦ C s.disk ∧ left ≠ none) ⟨d, left⟩

variable {C : D → Prop} {Q : α → D → Prop} {d : D}

/-! ## Rules -/

theorem safe_pure {a : α} (h : Q a d) : Safe (pure a) C Q d :=
  fun _ ↦ Proc.wp_pure ⟨h, id⟩

theorem safe_bind {m : Proc (Powered D) β} {f : β → Proc (Powered D) α}
    (h : Safe m C (fun b d' ↦ Safe (f b) C Q d') d) : Safe (m >>= f) C Q d := by
  intro left
  refine Proc.wp_bind ((h left).mono (fun b s hs ↦ ?_) fun _ ↦ id)
  refine (hs.1 s.left).mono (fun a t ht ↦ ⟨ht.1, fun hl ↦ ht.2 (hs.2 hl)⟩) fun t ht ↦ ?_
  exact ⟨ht.1, fun hl ↦ ht.2 (hs.2 hl)⟩

theorem safe_op {f : D → α × D} (hC : C d) (hQ : Q (f d).1 (f d).2) : Safe (op f) C Q d := by
  intro left
  rw [Proc.Wp, op]
  by_cases h : left = some 0
  · simp [h, hC]
  · simp only [h, if_false]
    exact ⟨hQ, fun hl ↦ by rw [hl, Option.map_none]⟩

variable {k : β → Proc (Powered D) α} {m : Proc (Powered D) α}

theorem safe_op_bind {f : D → β × D} (hC : C d) (h : Safe (k (f d).1) C Q (f d).2) :
    Safe (op f >>= k) C Q d :=
  safe_bind (safe_op hC h)

theorem safe_look_bind {f : D → β} (h : Safe (k (f d)) C Q d) : Safe (look f >>= k) C Q d :=
  safe_bind fun _ ↦ Proc.wp_read ⟨h, id⟩

theorem Safe.mono {C' : D → Prop} {Q' : α → D → Prop} (h : Safe m C Q d) (hC : ∀ d, C d → C' d)
    (hQ : ∀ a d, Q a d → Q' a d) : Safe m C' Q' d :=
  fun left ↦ (h left).mono (fun _ _ hs ↦ ⟨hQ _ _ hs.1, hs.2⟩) fun _ hs ↦ ⟨hC _ hs.1, hs.2⟩

/-! ## What `Safe` says -/

theorem Safe.ends (h : Safe m C Q d) : ∃ a d', m ⟨d, none⟩ = (some a, ⟨d', none⟩) ∧ Q a d' := by
  have h := h none
  rw [Proc.Wp] at h
  split at h
  · rename_i a t ht
    obtain ⟨d', left⟩ := t
    obtain rfl : left = none := h.2 rfl
    exact ⟨a, d', ht, h.1⟩
  · exact absurd rfl h.2

/-- A procedure whose power may fail leaves a disk that meets one of the two conditions. -/
theorem Safe.leaves (h : Safe m C Q d) (left : Option Nat) :
    (∃ a s, m ⟨d, left⟩ = (some a, s) ∧ Q a s.disk) ∨ ∃ s, m ⟨d, left⟩ = (none, s) ∧ C s.disk := by
  have h := h left
  rw [Proc.Wp] at h
  split at h
  · rename_i a t ht
    exact .inl ⟨a, t, ht, h.1⟩
  · rename_i t ht
    exact .inr ⟨t, ht, h.1⟩

/-- What holds wherever the power may fail, and at the end, holds of the disk left behind. -/
theorem Safe.final (h : Safe m C (fun _ ↦ C) d) (left : Option Nat) :
    C (m.final ⟨d, left⟩).disk := by
  rcases h.leaves left with ⟨a, s, hm, hs⟩ | ⟨s, hm, hs⟩
  · rwa [Proc.final, hm]
  · rwa [Proc.final, hm]

end Crash

/-! ## Files -/

/-- The files on a disk: what each path holds, if it exists. -/
abbrev Files (P α : Type) := P → Option (List α)

namespace Files

variable {P α : Type} [DecidableEq P]

/-- Remove a file; the answer is whether it existed. -/
def remove (path : P) (d : Files P α) : Bool × Files P α :=
  ((d path).isSome, Function.update d path none)

/-- Create an empty file, or empty the one there is. -/
def create (path : P) (d : Files P α) : Bool × Files P α :=
  (true, Function.update d path (some []))

/-- Write at the end of a file that has been opened; the answer is how much was written. -/
def write (path : P) (data : List α) (d : Files P α) : Nat × Files P α :=
  (data.length, Function.update d path ((d path).map (· ++ data)))

/-- Rename a file, provided there is one and none of the new name. -/
def rename (path path' : P) (d : Files P α) : Bool × Files P α :=
  if (d path).isSome && (d path').isNone then
    (true, Function.update (Function.update d path none) path' (d path))
  else (false, d)

theorem rename_of_some {path path' : P} {d : Files P α} {data : List α} (h : d path = some data)
    (h' : d path' = none) :
    rename path path' d =
      (true, Function.update (Function.update d path none) path' (some data)) := by
  simp [rename, h, h']

end Files
