import Mathlib

/-!
# Rings

A ring of `n` places, written one place after another and from the beginning again, holds the last
`n` of the values that were written.  The value with the number `k` is at the place `k % n`.
-/

open List

namespace Ring

variable {α : Type} {n : Nat} [NeZero n] {ring : Fin n → α} {values : List α}

variable (ring values) in
/-- The ring holds the last of these values. -/
def Holds : Prop :=
  ∀ k v, values[k]? = some v → values.length ≤ k + n → ring (Fin.ofNat n k) = v

theorem holds_nil : Holds ring [] := fun _ _ h ↦ by simp at h

/-- The next value is written where the oldest one was. -/
theorem Holds.append (h : Holds ring values) (v : α) :
    Holds (Function.update ring (Fin.ofNat n values.length) v) (values ++ [v]) := by
  intro k w hw hk
  rw [length_append, length_singleton] at hk
  have hlt : k < (values ++ [v]).length := (List.getElem?_eq_some_iff.mp hw).1
  rw [length_append, length_singleton] at hlt
  rcases Nat.lt_succ_iff_lt_or_eq.mp hlt with hlt | rfl
  · rw [getElem?_append_left hlt] at hw
    rw [Function.update_of_ne, h k w hw (by omega)]
    -- two numbers less than `n` apart
    intro heq
    have hmod : k % n = values.length % n := congrArg Fin.val heq
    have hzero := Nat.sub_mod_eq_zero_of_mod_eq hmod.symm
    rw [Nat.mod_eq_of_lt (by omega)] at hzero
    omega
  · rw [getElem?_concat_length] at hw
    rw [Function.update_self]
    exact Option.some.inj hw

/-- The values from the oldest on, when the ring is full. -/
theorem Holds.get (h : Holds ring values) (hfull : n ≤ values.length) {i : Nat} {v : α}
    (hv : (values.drop (values.length - n))[i]? = some v) :
    ring (Fin.ofNat n (values.length + i)) = v := by
  rw [getElem?_drop] at hv
  have hplace : Fin.ofNat n (values.length + i) = Fin.ofNat n (values.length - n + i) := by
    refine Fin.ext (?_ : (values.length + i) % n = (values.length - n + i) % n)
    rw [← Nat.add_mod_right (values.length - n + i)]
    congr 1
    omega
  rw [hplace]
  exact h _ v hv (by omega)

/-! ## Queues -/

/-- What is at so many places from this one on. -/
def contents (ring : Fin n → α) (head count : Nat) : List α :=
  (range count).map fun i ↦ ring (Fin.ofNat n (head + i))

variable (ring) (head : Nat) {count : Nat}

theorem contents_mod : contents ring (head % n) count = contents ring head count := by
  simp [contents, Fin.ofNat]

theorem contents_succ : contents ring head (count + 1) =
    ring (Fin.ofNat n head) :: contents ring (head + 1) count := by
  simp [contents, range_succ_eq_map, Function.comp_def, Nat.add_assoc, Nat.add_comm 1]

/-- A value is added at the next place, if there is room. -/
theorem contents_update (hcount : count < n) (v : α) :
    contents (Function.update ring (Fin.ofNat n (head + count)) v) head (count + 1) =
      contents ring head count ++ [v] := by
  rw [contents, range_succ, map_append, map_singleton, Function.update_self]
  refine congrArg (· ++ [v]) (map_congr_left fun i hi ↦ Function.update_of_ne (fun heq ↦ ?_) _ _)
  have hmod : (head + i) % n = (head + count) % n := congrArg Fin.val heq
  have hzero := Nat.sub_mod_eq_zero_of_mod_eq hmod.symm
  have hlt := mem_range.mp hi
  rw [Nat.mod_eq_of_lt (by omega)] at hzero
  omega

end Ring
