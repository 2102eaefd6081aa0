import Noobia.Lib.Bytes

/-!
# What arrives on a socket

What the other side sends comes in segments, and a call of `recv` returns what is there of the next
one, as far as there is room for it.  A call that returns nothing is the end: the other side has
closed the connection or it has been lost.  So a connection is the list of its segments, an empty
one is its end, and `Socket.arrived` is what arrives before that.

`Socket.readBytes` is the loop that calls `recv` until it has so many bytes.  Its result does not
depend on the segments, only on what arrives.  `Socket.parts` is for a loop that looks at what it
has after every call: the parts of the whole that it gets to see, until its buffer is full.
-/

namespace Socket

open List

/-- The bytes that arrive before the end. -/
def arrived : List Bytes → Bytes
  | [] => []
  | segment :: segments => if segment = [] then [] else segment ++ arrived segments

theorem arrived_cons {segment : Bytes} (h : segment ≠ []) (segments : List Bytes) :
    arrived (segment :: segments) = segment ++ arrived segments :=
  if_neg h

/-- Read so many bytes, or fail if they do not arrive. -/
def readBytes : Nat → List Bytes → Option (Bytes × List Bytes)
  | 0, segments => some ([], segments)
  | _ + 1, [] => none
  | n + 1, segment :: segments =>
    if segment = [] then none
    else if segment.length ≤ n + 1 then
      (readBytes (n + 1 - segment.length) segments).map fun read ↦ (segment ++ read.1, read.2)
    else some (segment.take (n + 1), segment.drop (n + 1) :: segments)

variable {segments : List Bytes}

/-- **The bytes are read if so many arrive**, and the others are still to come. -/
theorem readBytes_of_le {n : Nat} (h : n ≤ (arrived segments).length) :
    ∃ rest, readBytes n segments = some ((arrived segments).take n, rest) ∧
      arrived rest = (arrived segments).drop n := by
  induction segments generalizing n with
  | nil =>
    obtain rfl : n = 0 := Nat.le_zero.mp h
    exact ⟨[], rfl, rfl⟩
  | cons segment segments ih =>
    cases n with
    | zero => exact ⟨segment :: segments, rfl, rfl⟩
    | succ n =>
      have hne : segment ≠ [] := by
        rintro rfl
        exact absurd h (Nat.not_succ_le_zero n)
      rw [arrived_cons hne, length_append] at h
      rw [readBytes, if_neg hne, arrived_cons hne]
      split
      · rename_i hle
        obtain ⟨rest, hread, hrest⟩ := ih (n := n + 1 - segment.length) (by omega)
        refine ⟨rest, ?_, ?_⟩
        · rw [hread, Option.map_some, take_append, take_of_length_le hle]
        · rw [hrest, drop_append, drop_of_length_le hle, nil_append]
      · rename_i hlong
        have hrest : segment.drop (n + 1) ≠ [] := by
          intro hnil
          rw [drop_eq_nil_iff] at hnil
          omega
        refine ⟨segment.drop (n + 1) :: segments, ?_, ?_⟩
        · rw [take_append_of_le_length (by omega)]
        · rw [arrived_cons hrest, drop_append_of_le_length (by omega)]

theorem readBytes_of_lt {n : Nat} (h : (arrived segments).length < n) :
    readBytes n segments = none := by
  induction segments generalizing n with
  | nil =>
    cases n with
    | zero => exact absurd h (Nat.not_lt_zero _)
    | succ n => rfl
  | cons segment segments ih =>
    cases n with
    | zero => exact absurd h (Nat.not_lt_zero _)
    | succ n =>
      rw [readBytes]
      split
      · rfl
      rename_i hne
      rw [arrived_cons hne, length_append] at h
      rw [if_pos (by omega), ih (by omega), Option.map_none]

/-- What is in a buffer after each call of `recv`, until it is full or the connection ends: the
buffer holds `received`, and there is room for so much more. -/
def parts (room : Nat) (received : Bytes) : List Bytes → List Bytes
  | [] => []
  | segment :: segments =>
    if segment = [] ∨ room = 0 then []
    else
      (received ++ segment.take room) ::
        parts (room - segment.length) (received ++ segment.take room) segments

/-- A part is the beginning of what arrives, and longer than what was there before. -/
theorem mem_parts {room : Nat} {received r : Bytes}
    (h : r ∈ parts room received segments) : r <+: received ++ arrived segments ∧
      received.length < r.length ∧ r.length ≤ received.length + room := by
  induction segments generalizing room received with
  | nil => cases h
  | cons segment segments ih =>
    rw [parts] at h
    split at h
    · cases h
    rename_i hmore
    rw [not_or] at hmore
    have hlen : 0 < segment.length := length_pos_iff.mpr hmore.1
    rw [arrived_cons hmore.1]
    rcases mem_cons.mp h with rfl | h
    · refine ⟨?_, ?_, ?_⟩
      · rw [← append_assoc]
        refine List.IsPrefix.trans ?_ (prefix_append _ _)
        exact (prefix_append_right_inj _).mpr <| take_prefix _ _
      · rw [length_append, length_take]
        omega
      · rw [length_append, length_take]
        omega
    · obtain ⟨hpart, hlt, hle⟩ := ih h
      rw [length_append, length_take] at hlt hle
      refine ⟨?_, by omega, by omega⟩
      by_cases hroom : segment.length ≤ room
      · rwa [take_of_length_le hroom, append_assoc] at hpart
      · -- the buffer is full and there is no further part
        omega

theorem parts_pairwise (room : Nat) (received : Bytes) (segments : List Bytes) :
    (parts room received segments).Pairwise (·.length < ·.length) := by
  induction segments generalizing room received with
  | nil => exact List.Pairwise.nil
  | cons segment segments ih =>
    rw [parts]
    split
    · exact List.Pairwise.nil
    · exact List.Pairwise.cons (fun r hr ↦ (mem_parts hr).2.1) (ih _ _)

end Socket
