import Noobia.Lib.CString

/-!
# The head of an HTTP message

A message begins with a start line and fields, each on a line of its own, and a blank line ends the
head.  `Http.Head` is a head whose lines are plain: there is no line break and no terminator inside
them.

A program that looks for the blank line with `strstr` finds the end of the head, `after_blankLine`.
One that looks for a field in the same way finds the first that is spelled as it expects,
`after_spelled`; if there is none, `after_unspelled`, it goes on looking in what follows the head.
-/

open List

namespace CString

/-- What has been found is found in a longer string too, at the same place. -/
theorem after_append {needle string rest : Bytes} (hne : needle ≠ [])
    (h : after needle string = some rest) (tail : Bytes) :
    after needle (string ++ tail) = some (rest ++ tail) := by
  induction string with
  | nil =>
    rw [after_nil hne] at h
    cases h
  | cons c string ih =>
    rw [after_cons] at h
    rw [cons_append, after_cons]
    split at h
    · rename_i hstart
      have hfront := isPrefixOf_iff_prefix.mp hstart
      obtain rfl := Option.some.inj h
      rw [if_pos, ← cons_append, drop_append_of_le_length hfront.length_le]
      refine isPrefixOf_iff_prefix.mpr ?_
      rw [← cons_append]
      exact hfront.trans (prefix_append _ _)
    · rename_i hstart
      rw [if_neg, ih h]
      intro hlong
      -- the needle is no longer than what it was found in
      rw [after, Option.map_eq_some_iff] at h
      obtain ⟨i, hi, -⟩ := h
      have hle := strstr_le hi
      have hfront := isPrefixOf_iff_prefix.mp hlong
      rw [← cons_append] at hfront
      refine absurd ?_ hstart
      refine isPrefixOf_iff_prefix.mpr ?_
      refine prefix_of_prefix_length_le hfront (prefix_append _ _) ?_
      rw [length_cons]
      omega

/-- Where a string was found, from what follows it. -/
theorem strstr_of_after {needle front rest : Bytes} (h : after needle (front ++ rest) = some rest) :
    (strstr needle (front ++ rest)).map (· + needle.length) = some front.length := by
  rw [after, Option.map_eq_some_iff] at h
  obtain ⟨i, hi, hdrop⟩ := h
  have hle := strstr_le hi
  have hlen := congrArg List.length hdrop
  rw [length_drop] at hlen
  rw [length_append] at hle hlen
  rw [hi, Option.map_some]
  congr 1
  omega

end CString

namespace Http

/-- The end of a line. -/
def crlf : Bytes := [13, 10]

/-- There is no line break and no terminator in it. -/
def Plain (text : Bytes) : Prop := ∀ b ∈ text, b ≠ 0 ∧ b ≠ 13 ∧ b ≠ 10
  deriving Decidable

/-- A field of a head: a name, without the colon that ends it, and a value. -/
structure Field where
  name : Bytes
  value : Bytes
  name_plain : Plain name
  name_colon : 58 ∉ name
  value_plain : Plain value

/-- The field and the line break before it. -/
def Field.line (f : Field) : Bytes := crlf ++ f.name ++ 58 :: f.value

/-- A head: the start line and the fields. -/
structure Head where
  start : Bytes
  fields : List Field
  start_plain : Plain start

/-- A head as it is sent, up to the blank line. -/
def Head.bytes (h : Head) : Bytes := h.start ++ h.fields.flatMap Field.line

variable {text : Bytes}

theorem Plain.zero_notMem (h : Plain text) : 0 ∉ text := fun hmem ↦ (h 0 hmem).1 rfl

theorem Plain.return_notMem (h : Plain text) : 13 ∉ text := fun hmem ↦ (h 13 hmem).2.1 rfl

theorem Head.zero_notMem (h : Head) : 0 ∉ h.bytes := by
  simp only [Head.bytes, mem_append, mem_flatMap, not_or, not_exists, not_and]
  refine ⟨h.start_plain.zero_notMem, fun f _ ↦ ?_⟩
  simp [Field.line, crlf, f.name_plain.zero_notMem, f.value_plain.zero_notMem]

/-- What begins with a line break is at the beginning of a line, or on a later one. -/
theorem after_line (w : Bytes) (f : Field) (rest : Bytes) :
    CString.after (crlf ++ w) (f.line ++ rest) =
      if w.isPrefixOf (f.name ++ 58 :: (f.value ++ rest)) then
        some ((f.name ++ 58 :: (f.value ++ rest)).drop w.length)
      else CString.after (crlf ++ w) rest := by
  have hline : f.line ++ rest = 13 :: 10 :: (f.name ++ 58 :: (f.value ++ rest)) := by
    simp [Field.line, crlf]
  have hplain : 13 ∉ (10 :: (f.name ++ 58 :: f.value) : Bytes) := by
    simp [f.name_plain.return_notMem, f.value_plain.return_notMem]
  have hskip := CString.after_append_of_not_mem hplain (10 :: w) rest
  rw [hline, crlf, cons_append, singleton_append, CString.after_cons]
  simp only [List.isPrefixOf, beq_self_eq_true, Bool.true_and, length_cons,
    drop_succ_cons]
  split
  · rfl
  · simpa using hskip

/-- What begins with a line break is not in the start line. -/
theorem after_head (w : Bytes) (h : Head) (rest : Bytes) :
    CString.after (crlf ++ w) (h.bytes ++ rest) =
      CString.after (crlf ++ w) (h.fields.flatMap Field.line ++ rest) := by
  rw [Head.bytes, append_assoc]
  exact CString.after_append_of_not_mem h.start_plain.return_notMem _ _

/-- **The blank line ends the head.** -/
theorem after_blankLine (h : Head) (rest : Bytes) :
    CString.after (crlf ++ crlf) (h.bytes ++ (crlf ++ crlf ++ rest)) = some rest := by
  rw [after_head]
  induction h.fields with
  | nil => exact CString.after_append_self (by decide) rest
  | cons f fields ih =>
    rw [flatMap_cons, append_assoc, after_line, if_neg, ih]
    intro hblank
    -- the line has a name, or at least a colon
    have hhead : (f.name ++ 58 :: (f.value ++ (fields.flatMap Field.line ++
        (crlf ++ crlf ++ rest)))).head? = some 13 := by
      obtain ⟨tail, htail⟩ := isPrefixOf_iff_prefix.mp hblank
      rw [← htail]
      rfl
    have hmem := f.name_plain.return_notMem
    cases hname : f.name with
    | nil =>
      rw [hname] at hhead
      cases hhead
    | cons c name =>
      rw [hname] at hhead hmem
      obtain rfl := Option.some.inj hhead
      exact hmem mem_cons_self

section

variable {word : Bytes} (hcolon : 58 ∉ word) (hreturn : 13 ∉ word)
include hcolon

/-- **A field that is spelled as expected is found**, or one before it that is. -/
theorem after_spelled {h : Head} (hword : ∃ f ∈ h.fields, f.name = word) (rest : Bytes) :
    ∃ f ∈ h.fields, f.name = word ∧ ∃ tail,
      CString.after (crlf ++ (word ++ [58])) (h.bytes ++ (crlf ++ rest)) =
        some (f.value ++ 13 :: tail) := by
  rw [after_head]
  generalize h.fields = fields at hword ⊢
  induction fields with
  | nil =>
    obtain ⟨f, hf, -⟩ := hword
    cases hf
  | cons f fields ih =>
    rw [flatMap_cons, append_assoc, after_line]
    by_cases hname : f.name = word
    · refine ⟨f, mem_cons_self, hname, ?_⟩
      have hstart := (CString.append_separator_prefix hcolon f.name_colon
        (f.value ++ (fields.flatMap Field.line ++ (crlf ++ rest)))).mpr hname
      rw [if_pos <| isPrefixOf_iff_prefix.mpr hstart]
      obtain ⟨tail, htail⟩ : ∃ tail, fields.flatMap Field.line ++ (crlf ++ rest) = 13 :: tail := by
        cases fields with
        | nil | cons f' fields => exact ⟨_, rfl⟩
      refine ⟨tail, ?_⟩
      rw [← hname, htail]
      simp
    · obtain ⟨f', hf', hname', htail⟩ := ih (by simpa [hname] using hword)
      refine ⟨f', mem_cons_of_mem _ hf', hname', ?_⟩
      rwa [if_neg]
      refine mt isPrefixOf_iff_prefix.mp ?_
      rwa [CString.append_separator_prefix hcolon f.name_colon]

include hreturn

/-- If none is, the search goes on behind the head. -/
theorem after_unspelled {h : Head} (hword : ∀ f ∈ h.fields, f.name ≠ word) (rest : Bytes) :
    CString.after (crlf ++ (word ++ [58])) (h.bytes ++ (crlf ++ (crlf ++ rest))) =
      CString.after (crlf ++ (word ++ [58])) (crlf ++ rest) := by
  rw [after_head]
  generalize h.fields = fields at hword ⊢
  induction fields with
  | nil =>
    rw [flatMap_nil, nil_append, crlf, cons_append, singleton_append,
      cons_append, cons_append, CString.after_cons, if_neg, nil_append]
    · have hnewline : 13 ∉ ([10] : Bytes) := by decide
      exact CString.after_append_of_not_mem hnewline _ _
    intro hstart
    have hfront := isPrefixOf_iff_prefix.mp hstart
    rw [cons_prefix_cons, cons_prefix_cons] at hfront
    cases word with
    | nil => exact absurd hfront.2.2 (by simp)
    | cons c word =>
      obtain ⟨rfl, -⟩ := cons_prefix_cons.mp hfront.2.2
      exact hreturn mem_cons_self
  | cons f fields ih =>
    rw [flatMap_cons, append_assoc, after_line, if_neg,
      ih fun f' hf' ↦ hword f' (mem_cons_of_mem _ hf')]
    refine mt isPrefixOf_iff_prefix.mp ?_
    rw [CString.append_separator_prefix hcolon f.name_colon]
    exact hword f mem_cons_self

end

end Http
