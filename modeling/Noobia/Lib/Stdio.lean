import Noobia.Lib.CString

/-!
# Reading a file line by line

`fgets` reads up to the end of a line or as much as its buffer takes, whichever comes first.  A file
read with it to the end falls into pieces; `Stdio.pieces` are these pieces.  A line that fits the
buffer is one piece, newline included, and a longer one is several, the later of which look to the
program like lines of their own.
-/

namespace Stdio

open List

/-- The pieces of a file when there is room for `room` more bytes in the first of them, and for
`size - 1` in each of the others. -/
def piecesFrom (size : Nat) : Nat → Bytes → List Bytes
  | _, [] => []
  | room, b :: file =>
    if b = 10 || room ≤ 1 then [b] :: piecesFrom size (size - 1) file
    else
      match piecesFrom size (room - 1) file with
      | [] => [[b]]
      | piece :: pieces => (b :: piece) :: pieces

/-- What `fgets(line, size, file)` returns, one call after the other, until the end of the file. -/
def pieces (size : Nat) (file : Bytes) : List Bytes := piecesFrom size (size - 1) file

theorem piecesFrom_ne_nil (size room : Nat) {file : Bytes} (h : file ≠ []) :
    piecesFrom size room file ≠ [] := by
  cases file with
  | nil => exact absurd rfl h
  | cons b file =>
    rw [piecesFrom]
    split
    · exact cons_ne_nil _ _
    split
    · exact cons_ne_nil _ _
    · exact cons_ne_nil _ _

variable {line : Bytes} (size : Nat)

theorem piecesFrom_append (size room : Nat) (hline : 10 ∉ line) (rest : Bytes) :
    piecesFrom size room (line ++ 10 :: rest) =
      piecesFrom size room (line ++ [10]) ++ piecesFrom size (size - 1) rest := by
  induction line generalizing room with
  | nil => simp [piecesFrom]
  | cons b line ih =>
    have hline := not_mem_of_not_mem_cons hline
    rw [cons_append, cons_append, piecesFrom, piecesFrom]
    split
    · rw [ih _ hline, cons_append]
    rw [ih _ hline]
    cases hpieces : piecesFrom size (room - 1) (line ++ [10]) with
    | nil => exact absurd hpieces (piecesFrom_ne_nil size _ (by simp))
    | cons piece pieces => rfl

theorem pieces_append (hline : 10 ∉ line) (rest : Bytes) :
    pieces size (line ++ 10 :: rest) = pieces size (line ++ [10]) ++ pieces size rest :=
  piecesFrom_append size (size - 1) hline rest

theorem piecesFrom_of_length_lt {room : Nat} (hline : 10 ∉ line) (hroom : line.length < room) :
    piecesFrom size room (line ++ [10]) = [line ++ [10]] := by
  induction line generalizing room with
  | nil => simp [piecesFrom]
  | cons b line ih =>
    rw [length_cons] at hroom
    rw [cons_append, piecesFrom, if_neg, ih (not_mem_of_not_mem_cons hline) (by omega)]
    have hb : b ≠ 10 := fun h ↦ hline (h ▸ mem_cons_self)
    simp [hb]
    omega

theorem piecesFrom_of_length_le {room : Nat} (hline : 10 ∉ line) (hroom : line.length ≤ room)
    (hne : line ≠ []) : piecesFrom size room line = [line] := by
  induction line generalizing room with
  | nil => exact absurd rfl hne
  | cons b line ih =>
    have hb : b ≠ 10 := fun h ↦ hline (h ▸ mem_cons_self)
    rw [length_cons] at hroom
    rw [piecesFrom]
    cases line with
    | nil => simp [piecesFrom]
    | cons b' line =>
      rw [if_neg (by simp [hb]; simp at hroom; omega),
        ih (not_mem_of_not_mem_cons hline) (by omega) (cons_ne_nil _ _)]

theorem two_le_length_piecesFrom {room : Nat} (hline : 10 ∉ line) (hpos : 0 < room)
    (hroom : room ≤ line.length) : 2 ≤ (piecesFrom size room (line ++ [10])).length := by
  induction line generalizing room with
  | nil => exact absurd hroom (by simp; omega)
  | cons b line ih =>
    rw [length_cons] at hroom
    have hrest := not_mem_of_not_mem_cons hline
    have hb : b ≠ 10 := fun h ↦ hline (h ▸ mem_cons_self)
    rw [cons_append, piecesFrom]
    split
    · have hne : line ++ [10] ≠ [] := by simp
      have := length_pos_iff.mpr (piecesFrom_ne_nil size (size - 1) hne)
      rw [length_cons]
      omega
    · rename_i hmore
      have hmore : 1 < room := by simpa [hb] using hmore
      have := @ih (room - 1) hrest (by omega) (by omega)
      split
      · rename_i hnil
        simp [hnil] at this
      rename_i piece pieces hpieces
      rw [hpieces] at this
      exact this

/-- With a newline behind it, a text falls into the same pieces: the newline goes to the last of
them or makes one more. -/
theorem piecesFrom_newline (size room : Nat) (file : Bytes) :
    piecesFrom size room (file ++ [10]) = piecesFrom size room file ++ [[10]] ∨
      ∃ front last, piecesFrom size room file = front ++ [last] ∧
        piecesFrom size room (file ++ [10]) = front ++ [last ++ [10]] := by
  induction file generalizing room with
  | nil => simp [piecesFrom]
  | cons b file ih =>
    rw [cons_append, piecesFrom, piecesFrom]
    split
    · rcases ih (size - 1) with h | ⟨front, last, h, h'⟩
      · exact .inl (by rw [h, cons_append])
      · exact .inr ⟨[b] :: front, last, by rw [h, cons_append], by rw [h', cons_append]⟩
    · rcases ih (room - 1) with h | ⟨front, last, h, h'⟩
      · rw [h]
        cases piecesFrom size (room - 1) file with
        | nil => exact .inr ⟨[], [b], rfl, rfl⟩
        | cons piece pieces => exact .inl rfl
      · rw [h, h']
        cases front with
        | nil => exact .inr ⟨[], b :: last, rfl, rfl⟩
        | cons piece pieces => exact .inr ⟨(b :: piece) :: pieces, last, rfl, rfl⟩

theorem flatten_piecesFrom (size room : Nat) (file : Bytes) :
    (piecesFrom size room file).flatten = file := by
  induction file generalizing room with
  | nil => rfl
  | cons b file ih =>
    rw [piecesFrom]
    split
    · rw [flatten_cons, ih]
      rfl
    have := ih (room - 1)
    split
    · rename_i hnil
      rw [← this, hnil]
      rfl
    · rename_i piece pieces hpieces
      rw [← this, hpieces]
      rfl

/-- `line[strcspn(line, "\r\n")] = 0`: a line without its end. -/
def chomp (line : Bytes) : Bytes := (CString.text line).takeWhile fun b ↦ b ≠ 13 && b ≠ 10

/-- A line without its end is the line, unless there is a carriage return in it. -/
theorem chomp_append_newline (hzero : 0 ∉ line) (hline : 10 ∉ line) :
    chomp (line ++ [10]) = line ↔ 13 ∉ line := by
  have htext : CString.text (line ++ [10]) = line ++ [10] := CString.text_append hzero [10]
  rw [chomp, htext]
  constructor
  · intro h hreturn
    rw [← h] at hreturn
    simpa using mem_takeWhile_imp hreturn
  · intro hreturn
    rw [takeWhile_append_of_pos]
    · simp
    intro b hb
    simp only [ne_eq, Bool.and_eq_true, decide_eq_true_eq]
    constructor
    · rintro rfl
      exact hreturn hb
    · rintro rfl
      exact hline hb

end Stdio
