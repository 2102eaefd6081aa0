import Mathlib

/-!
# Going round

Members sit in a circle and take turns, each followed by the next one on.  `List.next` of the list
of members is the one next to a member, and a sequence of turns that goes from each member to the
next goes through all of them in as many turns as there are members: `perm_window`.

In a program the circle has other people in it who do not take turns, and the next member is looked
for from the place after the last one on.  `find?_rotate_succ` says that this finds it.
-/

namespace RoundRobin

open List

variable {α : Type} [DecidableEq α]

/-! ## Windows -/

variable {turns : Nat → α} {members : List α}

/-- From the member at `place` on, each turn is one place further round. -/
theorem getElem?_turn (hnodup : members.Nodup)
    {start place : Nat} (hstart : members[place]? = some (turns start)) {k : Nat}
    (hnext : ∀ i < k, ∃ h : turns (start + i) ∈ members,
      turns (start + i + 1) = members.next (turns (start + i)) h) :
    members[(place + k) % members.length]? = some (turns (start + k)) := by
  induction k with
  | zero =>
    have hplace := (List.getElem?_eq_some_iff.mp hstart).1
    rw [Nat.add_zero, Nat.mod_eq_of_lt hplace, hstart, Nat.add_zero]
  | succ k ih =>
    obtain ⟨hlt, hk⟩ := List.getElem?_eq_some_iff.mp (ih fun i hi ↦ hnext i (by omega))
    obtain ⟨hmem, hturn⟩ := hnext k (by omega)
    rw [← Nat.add_assoc start, hturn]
    simp only [← hk]
    rw [next_getElem _ hnodup, ← getElem?_eq_getElem, Nat.mod_add_mod, Nat.add_assoc]

/-- **As many turns as there are members go through all of them.** -/
theorem perm_window (hnodup : members.Nodup) {start : Nat} (hstart : turns start ∈ members)
    (hnext : ∀ i, i + 1 < members.length → ∃ h : turns (start + i) ∈ members,
      turns (start + i + 1) = members.next (turns (start + i)) h) :
    ((List.range members.length).map fun i ↦ turns (start + i)).Perm members := by
  obtain ⟨place, hplace⟩ := getElem?_of_mem hstart
  have hwindow : (List.range members.length).map (fun i ↦ turns (start + i)) =
      members.rotate place := by
    refine ext_getElem? fun i ↦ ?_
    by_cases hi : i < members.length
    · rw [getElem?_map, getElem?_range hi, getElem?_rotate hi, Nat.add_comm i]
      exact (getElem?_turn hnodup hplace fun j hj ↦ hnext j (by omega)).symm
    · rw [getElem?_eq_none (by simpa using hi), getElem?_eq_none (by simpa using hi)]
  rw [hwindow]
  exact rotate_perm _ _

/-! ## Looking for the next member -/

omit [DecidableEq α] in
/-- Whoever takes no turns may leave the circle, wherever one begins to go round it. -/
theorem isRotated_filter (p : α → Bool) (circle : List α) (k : Nat) :
    (circle.filter p).IsRotated ((circle.rotate k).filter p) := by
  rw [rotate_eq_drop_append_take_mod, filter_append]
  refine .trans ?_ isRotated_append
  rw [← filter_append, take_append_drop]

/-- Seen from a member, the one next to it is the first of the others, if there are others. -/
theorem head?_concat_eq_next (x : α) (others : List α) (h : x ∈ x :: others) :
    (others ++ [x]).head? = some ((x :: others).next x h) := by
  cases others with
  | nil => rfl
  | cons y others => rw [next_cons_cons_eq, cons_append, head?_cons]

/-- **The first member from the place after a member on is the one next to it.** -/
theorem find?_rotate_succ {circle : List α} (hnodup : circle.Nodup) {p : α → Bool} {k : Nat}
    (hk : k < circle.length) (hmem : circle[k] ∈ circle.filter p) :
    (circle.rotate (k + 1)).find? p = some ((circle.filter p).next circle[k] hmem) := by
  -- the circle as it is seen from that member
  have hrotate : circle.rotate k = circle[k] :: (circle.drop (k + 1) ++ circle.take k) := by
    rw [rotate_eq_drop_append_take (by omega), drop_eq_getElem_cons hk, cons_append]
  have hp : p circle[k] = true := (mem_filter.mp hmem).2
  rw [← rotate_rotate, hrotate, rotate_cons_succ, rotate_zero, ← head?_filter,
    filter_append, filter_cons_of_pos hp, filter_nil,
    isRotated_next_eq (isRotated_filter p circle k) (hnodup.filter p)]
  simp only [hrotate, filter_cons_of_pos hp]
  exact head?_concat_eq_next _ _ _

end RoundRobin
