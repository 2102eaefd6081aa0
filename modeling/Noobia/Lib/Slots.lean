import Mathlib

/-!
# Changing a list in one place

What is in a list after it has been changed in one place was there before, or is what it was changed
to.
-/

namespace Slots

variable {α : Type}

variable {list : List α} {f : α → α} {j : Nat} {a : α} {slots : List (Option α)}

theorem exists_of_modify {k : Nat} (h : (list.modify k f)[j]? = some a) :
    ∃ b, list[j]? = some b ∧ a = if k = j then f b else b := by
  rw [List.getElem?_modify, Option.map_eq_map, Option.map_eq_some_iff] at h
  obtain ⟨b, hb, rfl⟩ := h
  exact ⟨b, hb, rfl⟩

theorem of_modify {k : Nat} {b : α} (hk : list[k]? = some b) (h : (list.modify k f)[j]? = some a) :
    k = j ∧ f b = a ∨ k ≠ j ∧ list[j]? = some a := by
  obtain ⟨c, hc, rfl⟩ := exists_of_modify h
  split
  · rename_i heq
    rw [← heq, hk] at hc
    exact .inl ⟨heq, congrArg f (Option.some.inj hc)⟩
  · exact .inr ⟨‹_›, hc⟩

theorem of_set_none {i : Nat} (h : (slots.set i none)[j]? = some (some a)) :
    i ≠ j ∧ slots[j]? = some (some a) := by
  rw [List.getElem?_set] at h
  split at h
  · split at h <;> cases h
  · exact ⟨‹_›, h⟩

theorem of_set_some {i : Nat} {b : α} (h : (slots.set i (some b))[j]? = some (some a)) :
    i = j ∧ b = a ∨ i ≠ j ∧ slots[j]? = some (some a) := by
  rw [List.getElem?_set] at h
  split at h
  · rename_i heq
    split at h
    · exact .inl ⟨heq, Option.some.inj (Option.some.inj h)⟩
    · cases h
  · exact .inr ⟨‹_›, h⟩

end Slots
