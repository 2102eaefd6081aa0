import Noobia.Lib.Stdio

/-!
# Lines of the form `key = value`

A file of settings has one of them to a line, a key and a value with `=` between them and any space
around either.  `Fields.split` takes such a line apart at its first `=`.
-/

/-! ## Trimming -/

open List CString

namespace Bytes

/-- There is nothing but space in it. -/
def Blank (text : Bytes) : Prop := ∀ b ∈ text, isSpace b = true
  deriving Decidable

variable {s text : Bytes}

theorem Blank.notMem (hs : Blank s) {b : UInt8} (hb : isSpace b = false) : b ∉ s := by
  intro hmem
  rw [hs b hmem] at hb
  cases hb

theorem Blank.zero_notMem (hs : Blank s) : 0 ∉ s := hs.notMem (by decide)

theorem rdropWhile_append_blank (text : Bytes) (hs : Blank s) :
    (text ++ s).rdropWhile isSpace = text.rdropWhile isSpace := by
  rw [List.rdropWhile, reverse_append, dropWhile_append_of_pos, List.rdropWhile]
  intro b hb
  exact hs b (mem_reverse.mp hb)

theorem trim_append_blank (text : Bytes) (hs : Blank s) : trim (text ++ s) = trim text := by
  rw [trim, dropWhile_append, trim]
  split
  · rename_i hblank
    rw [List.isEmpty_iff.mp hblank, dropWhile_eq_nil_iff.mpr hs]
  · exact rdropWhile_append_blank _ hs

end Bytes

namespace Fields

open Bytes

/-! ## Taking a line apart -/

/-- `strchr(line, '=')`: what is before the first `=` and what is behind it. -/
def split (line : Bytes) : Option (Bytes × Bytes) :=
  match line.dropWhile (· ≠ 61) with
  | [] => none
  | _ :: value => some (line.takeWhile (· ≠ 61), value)

/-! ## Lines of a file -/

/-- What is read from a file, piece by piece, is what is written in its lines, if that is so for
each of them, and a newline at the end of a text makes no difference. -/
theorem filterMap_pieces {α : Type} (f : Bytes → Option α) (size : Nat)
    (hnewline : ∀ line, (Stdio.pieces size (line ++ [10])).filterMap f =
      (Stdio.pieces size line).filterMap f)
    {g : Bytes → Option α} {file : Bytes}
    (h : ∀ line ∈ file.splitOn 10, 10 ∉ line →
      (Stdio.pieces size line).filterMap f = (g line).toList) :
    (Stdio.pieces size file).filterMap f = (file.splitOn 10).filterMap g := by
  induction hn : file.length using Nat.strong_induction_on generalizing file with
  | _ n ih =>
    by_cases hmem : 10 ∈ file
    · obtain ⟨front, rest, rfl, hfront⟩ := eq_append_cons_of_mem hmem
      have hsplit : (front ++ 10 :: rest).splitOn 10 = front :: rest.splitOn 10 := by
        refine splitOnP_append_cons_of_forall_mem ?_ 10 (by simp) rest
        intro b hb
        simpa using ne_of_mem_of_not_mem hb hfront
      rw [hsplit] at h ⊢
      rw [Stdio.pieces_append size hfront, filterMap_append, hnewline, h front mem_cons_self hfront,
        ih rest.length (by simp at hn; omega) (fun line hline ↦ h line (mem_cons_of_mem _ hline))
          rfl]
      cases hg : g front with
      | none | some a => simp [hg]
    · rw [splitOn_eq_singleton hmem] at h ⊢
      rw [h file (mem_singleton_self _) hmem]
      cases hg : g file with
      | none | some a => simp [hg]

end Fields
