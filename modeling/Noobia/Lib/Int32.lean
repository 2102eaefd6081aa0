import Mathlib

/-!
# The numbers of an `int32_t`

A value of type `int32_t` is an integer in a range.  C++ gives the result of an operator on two such
values a meaning if the exact result is in the range again (`represent`); the usual machine brings
any result back into it by wrapping.
-/

/-- The values of an `int32_t`. -/
def IsInt32 (x : Int) : Prop := -2 ^ 31 ≤ x ∧ x < 2 ^ 31
  deriving Decidable

/-- The value of an expression of type `int32_t`, from its exact value.  Where that does not fit,
the expression is undefined. -/
def represent (exact : Int) : Option Int := if IsInt32 exact then some exact else none

theorem represent_isSome (exact : Int) : (represent exact).isSome ↔ IsInt32 exact := by
  rw [represent]
  split <;> simp [*]

theorem isInt32_bmod (x : Int) : IsInt32 (x.bmod (2 ^ 32)) := by
  have hlow : -((2 ^ 32 : Nat) : Int) / 2 ≤ x.bmod (2 ^ 32) := Int.le_bmod (by decide)
  have hhigh : x.bmod (2 ^ 32) < (((2 ^ 32 : Nat) : Int) + 1) / 2 := Int.bmod_lt (by decide)
  exact ⟨by omega, by omega⟩

/-- A number in the range is not changed by wrapping. -/
theorem bmod_of_isInt32 {x : Int} (h : IsInt32 x) : x.bmod (2 ^ 32) = x :=
  Int.bmod_eq_of_le (by have := h.1; omega) (by have := h.2; omega)

theorem isInt32_zero : IsInt32 0 := ⟨by simp, by simp⟩

theorem isInt32_byte (b : UInt8) : IsInt32 b.toNat := by
  have := b.toNat_lt
  exact ⟨by omega, by omega⟩

/-- A quotient fits, except for one pair of operands. -/
theorem isInt32_tdiv {x y : Int} (hx : IsInt32 x) (hy : y ≠ 0) :
    IsInt32 (x.tdiv y) ↔ ¬ (x = -2 ^ 31 ∧ y = -1) := by
  constructor
  · rintro h ⟨rfl, rfl⟩
    exact absurd h (by decide)
  · intro hnot
    have hle : (x.tdiv y).natAbs = x.natAbs / y.natAbs := Int.natAbs_tdiv x y
    obtain ⟨hlow, hhigh⟩ := hx
    by_cases hone : y.natAbs = 1
    · obtain rfl | rfl : y = 1 ∨ y = -1 := by omega
      · rw [Int.tdiv_one]
        exact ⟨hlow, hhigh⟩
      · rw [Int.tdiv_neg, Int.tdiv_one]
        exact ⟨by omega, by omega⟩
    · have htwo : 2 ≤ y.natAbs := by omega
      have hhalf : x.natAbs / y.natAbs ≤ x.natAbs / 2 := Nat.div_le_div_left htwo (by omega)
      exact ⟨by omega, by omega⟩
