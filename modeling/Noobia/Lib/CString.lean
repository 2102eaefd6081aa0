import Noobia.Lib.Bytes

/-!
# C strings

A C string is what memory holds from some address up to the first zero byte.  Memory from that
address to the end of the allocation is a `Bytes`; `CString.text` is the string in it.  The
functions of the C library below work on the text, and so never look further than its terminator.
-/

namespace CString

open List Bytes

/-- The string at the beginning of memory. -/
def text (memory : Bytes) : Bytes := memory.takeWhile (· ≠ 0)

def strlen (memory : Bytes) : Nat := (text memory).length

variable {memory needle string front word field rest : Bytes} {c b : UInt8} (bound : Nat)
  {width : Nat}

theorem ne_zero_of_mem_text (h : c ∈ text memory) : c ≠ 0 := by
  simpa using mem_takeWhile_imp h

/-- Memory with a terminator in it is the string, the terminator, and the rest. -/
theorem exists_eq_append (h : 0 ∈ memory) : ∃ tail, memory = text memory ++ 0 :: tail := by
  induction memory with
  | nil => cases h
  | cons c memory ih =>
    by_cases hc : c = 0
    · exact ⟨memory, by simp [text, hc]⟩
    obtain ⟨tail, htail⟩ := ih ((mem_cons.mp h).resolve_left (Ne.symm hc))
    refine ⟨tail, ?_⟩
    rw [text, takeWhile_cons_of_pos (by simpa using hc), cons_append]
    exact congrArg (c :: ·) htail

/-- What follows a zero byte is not part of the string. -/
theorem text_append_zero (memory tail : Bytes) : text (memory ++ 0 :: tail) = text memory := by
  rw [text, takeWhile_append, takeWhile_cons_of_neg (by simp), append_nil]
  split
  · rename_i hall
    have hfront := takeWhile_prefix (l := memory) (· ≠ 0)
    exact (hfront.eq_of_length hall).symm
  · rfl

theorem text_append (h : 0 ∉ front) (memory : Bytes) :
    text (front ++ memory) = front ++ text memory :=
  takeWhile_append_of_pos fun b hb ↦ by simpa using ne_of_mem_of_not_mem hb h

theorem text_of_not_mem (h : 0 ∉ memory) : text memory = memory := by
  simpa [text] using text_append h []

theorem text_of_ne_zero (h : ∀ c ∈ memory, c ≠ 0) : text memory = memory :=
  text_of_not_mem fun hzero ↦ h 0 hzero rfl

/-- `strstr`: where the needle first occurs in the string. -/
def strstr (needle : Bytes) : Bytes → Option Nat
  | [] => if needle.isEmpty then some 0 else none
  | c :: string =>
    if needle.isPrefixOf (c :: string) then some 0 else (strstr needle string).map (· + 1)

theorem strstr_le {i : Nat} (h : strstr needle string = some i) :
    i + needle.length ≤ string.length := by
  induction string generalizing i with
  | nil =>
    rw [strstr] at h
    split at h
    · rename_i hneedle
      obtain rfl := Option.some.inj h
      simp [List.isEmpty_iff.mp hneedle]
    · cases h
  | cons c string ih =>
    rw [strstr] at h
    split at h
    · rename_i hstart
      obtain rfl := Option.some.inj h
      have hfront := isPrefixOf_iff_prefix.mp hstart
      have := hfront.length_le
      omega
    · obtain ⟨j, hj, rfl⟩ := Option.map_eq_some_iff.mp h
      have := ih hj
      rw [length_cons]
      omega

/-! ## Looking for a string in another -/

/-- What follows the first `needle` in a string, if there is one. -/
def after (needle string : Bytes) : Option Bytes :=
  (strstr needle string).map fun i ↦ string.drop (i + needle.length)

theorem after_nil (h : needle ≠ []) : after needle [] = none := by
  simp [after, strstr, h]

theorem after_cons (needle : Bytes) (c : UInt8) (string : Bytes) :
    after needle (c :: string) =
      if needle.isPrefixOf (c :: string) then some ((c :: string).drop needle.length)
      else after needle string := by
  rw [after, strstr]
  split
  · rw [Option.map_some, Nat.zero_add]
  rw [after, Option.map_map]
  refine congrArg (fun f ↦ Option.map f (strstr needle string)) (funext fun i ↦ ?_)
  rw [Function.comp_apply, Nat.add_right_comm, drop_succ_cons]

/-- There is something after a needle if the needle is there. -/
theorem after_eq_none_iff (h : needle ≠ []) :
    after needle string = none ↔ ¬ needle <:+: string := by
  induction string with
  | nil => simp [after_nil h, h]
  | cons c string ih =>
    rw [after_cons, infix_cons_iff, not_or, ← ih]
    split
    · rename_i hstart
      have hfront := isPrefixOf_iff_prefix.mp hstart
      simp [hfront]
    · rename_i hstart
      simp [mt isPrefixOf_iff_prefix.mpr hstart]

/-- A needle is not found where there is no byte such as its first. -/
theorem after_append_of_not_mem (h : c ∉ front) (needle string : Bytes) :
    after (c :: needle) (front ++ string) = after (c :: needle) string := by
  induction front with
  | nil => rfl
  | cons b front ih =>
    obtain ⟨hb, hfront⟩ := not_or.mp (mt mem_cons.mpr h)
    rw [cons_append, after_cons, if_neg, ih hfront]
    simp [List.isPrefixOf, hb]

theorem after_of_not_mem (h : c ∉ string) (needle : Bytes) : after (c :: needle) string = none := by
  have := after_append_of_not_mem h needle []
  rw [append_nil] at this
  rw [this, after_nil (cons_ne_nil _ _)]

/-- A needle without a separator in it is not found in front of the separator if some byte of it is
not there. -/
theorem after_separator (hc : c ∉ needle) (hb : b ∈ needle) (hfront : b ∉ front) (string : Bytes) :
    after needle (front ++ c :: string) = after needle string := by
  have hshort (front : Bytes) (hfront : b ∉ front) :
      needle.isPrefixOf (front ++ c :: string) = false := by
    rw [Bool.eq_false_iff, ne_eq, isPrefixOf_iff_prefix]
    intro h
    rcases Nat.lt_or_ge front.length needle.length with hlt | hle
    · have hlonger : front ++ [c] <+: needle := by
        refine prefix_of_prefix_length_le ?_ h (by simp; omega)
        exact ⟨string, (append_cons ..).symm⟩
      exact hc (hlonger.subset (by simp))
    · exact hfront ((prefix_of_prefix_length_le h (prefix_append _ _) hle).subset hb)
  induction front with
  | nil =>
    have h := hshort [] hfront
    rw [nil_append] at h ⊢
    rw [after_cons, h]
    rfl
  | cons d front ih =>
    have h := hshort (d :: front) hfront
    rw [cons_append] at h ⊢
    rw [after_cons, h, ← ih (not_mem_of_not_mem_cons hfront)]
    rfl

theorem after_append_self (hne : needle ≠ []) (string : Bytes) :
    after needle (needle ++ string) = some string := by
  obtain ⟨c, needle, rfl⟩ := exists_cons_of_ne_nil hne
  rw [cons_append, after_cons, if_pos]
  · simp
  · refine isPrefixOf_iff_prefix.mpr ?_
    rw [← cons_append]
    exact prefix_append _ _

/-- Two fields in front of a separator are the same if one of them is where the other is. -/
theorem append_separator_prefix (hword : c ∉ word) (hfield : c ∉ field) (rest : Bytes) :
    word ++ [c] <+: field ++ c :: rest ↔ field = word := by
  induction word generalizing field with
  | nil =>
    cases field with
    | nil => simp
    | cons b field =>
      have hb : c ≠ b := fun h ↦ hfield (h ▸ mem_cons_self)
      simp [hb]
  | cons b word ih =>
    cases field with
    | nil =>
      have hb : b ≠ c := fun h ↦ hword (h ▸ mem_cons_self)
      simp [hb]
    | cons b' field =>
      rw [cons_append, cons_append, cons_prefix_cons, ih
        (not_mem_of_not_mem_cons hword) (not_mem_of_not_mem_cons hfield), List.cons.injEq,
        eq_comm]

/-- A word between two separators is found if it is the first field, and otherwise in the others. -/
theorem after_field (hword : c ∉ word) (hfield : c ∉ field) (rest : Bytes) :
    after (c :: (word ++ [c])) (c :: (field ++ c :: rest)) =
      if field = word then some rest else after (c :: (word ++ [c])) (c :: rest) := by
  have hstart : (c :: (word ++ [c])).isPrefixOf (c :: (field ++ c :: rest)) = true ↔
      field = word := by
    refine isPrefixOf_iff_prefix.trans ?_
    rw [cons_prefix_cons, append_separator_prefix hword hfield]
    simp
  rw [after_cons]
  by_cases h : field = word
  · rw [if_pos (hstart.mpr h), if_pos h, h]
    simp
  · rw [if_neg (mt hstart.mp h), if_neg h, after_append_of_not_mem hfield]

/-- It is not found in the last field, which has no separator behind it. -/
theorem after_last_field (hfield : c ∉ field) (word : Bytes) :
    after (c :: (word ++ [c])) (c :: field) = none := by
  rw [after_cons, if_neg, after_of_not_mem hfield]
  refine mt isPrefixOf_iff_prefix.mp ?_
  rw [cons_prefix_cons]
  rintro ⟨-, hstart⟩
  exact hfield (hstart.subset (mem_append_right _ (mem_singleton_self _)))

/-- A byte that is not in the needle makes no difference at the end of the string. -/
theorem after_append_singleton (hne : needle ≠ []) (hc : c ∉ needle) (string : Bytes) :
    after needle (string ++ [c]) = (after needle string).map (· ++ [c]) := by
  have hstart (string : Bytes) : needle.isPrefixOf (string ++ [c]) = needle.isPrefixOf string := by
    rw [Bool.eq_iff_iff, isPrefixOf_iff_prefix, isPrefixOf_iff_prefix]
    refine ⟨fun h ↦ ?_, fun h ↦ h.trans (prefix_append _ _)⟩
    refine (prefix_concat_iff.mp h).resolve_left ?_
    rintro rfl
    exact hc (mem_append_right _ (mem_singleton_self c))
  induction string with
  | nil =>
    have hempty := hstart []
    rw [nil_append] at hempty
    rw [nil_append, after_cons, hempty, if_neg (by simpa using hne), after_nil hne]
    rfl
  | cons b string ih =>
    have hhere := hstart (b :: string)
    rw [cons_append] at hhere
    rw [cons_append, after_cons, after_cons, hhere]
    split
    · rename_i h
      have hfront := isPrefixOf_iff_prefix.mp h
      rw [← cons_append, drop_append_of_le_length hfront.length_le, Option.map_some]
    · exact ih

/-! ## Numbers -/

/-- The digits `strtoul` reads, and their value on top of `value`. -/
def decimal (value : Nat) : Bytes → Nat
  | [] => value
  | c :: string =>
    if Bytes.isDigit c then decimal (value * 10 + (c.toNat - 48)) string else value

/-- The sign of a number, and what follows it. -/
def sign : Bytes → Bool × Bytes
  | 45 :: digits => (true, digits)
  | 43 :: digits => (false, digits)
  | digits => (false, digits)

/-- `strtoul(string, NULL, 10)`, for an `unsigned long` of 64 bits: leading space, a sign, and as
many digits as there are.  A value too large becomes the largest there is. -/
def strtoul (string : Bytes) : Nat :=
  let (negative, digits) := sign (string.dropWhile Bytes.isSpace)
  let value := decimal 0 digits
  if negative then if 2 ^ 64 ≤ value then 2 ^ 64 - 1 else (2 ^ 64 - value) % 2 ^ 64
  else min value (2 ^ 64 - 1)

/-- What becomes of a number with this sign and these digits. -/
def number (bound : Nat) (string : Bytes) : Bool × Bytes → Int × Bytes × Bool
  | (negative, digits) =>
    if !(digits.head?.any Bytes.isDigit) then (0, string, false)
    else
      let value : Int := if negative then -(decimal 0 digits : Int) else decimal 0 digits
      (max (-bound) (min value (bound - 1)), digits.dropWhile Bytes.isDigit,
        value < -bound || bound ≤ value)

/-- What `strtol`, `strtoll` and `atol` make of a text, for a type whose values are those from
`-bound` to `bound - 1`: the value, where the number ends, and whether it was out of range.  Without
a digit there is no number, and the end is the beginning. -/
def strtoSigned (bound : Nat) (string : Bytes) : Int × Bytes × Bool :=
  number bound string (sign (string.dropWhile Bytes.isSpace))

/-- `strtol(string, NULL, 10)`, for a `long` of 64 bits. -/
def strtol (string : Bytes) : Int := (strtoSigned (2 ^ 63) string).1

theorem sign_suffix (string : Bytes) : (sign string).2 <:+ string := by
  rw [sign.eq_def]
  split
  · exact suffix_cons _ _
  · exact suffix_cons _ _
  · exact suffix_refl _

theorem sign_append (b : UInt8) (token rest : Bytes) :
    sign (b :: token ++ rest) = ((sign (b :: token)).1, (sign (b :: token)).2 ++ rest) := by
  by_cases hminus : b = 45
  · rw [hminus]
    rfl
  by_cases hplus : b = 43
  · rw [hplus]
    rfl
  · simp [sign, hminus, hplus]

theorem decimal_append (hrest : rest.head?.all (!isDigit ·) = true) (digits : Bytes) (value : Nat) :
    decimal value (digits ++ rest) = decimal value digits := by
  induction digits generalizing value with
  | nil =>
    cases rest with
    | nil => rfl
    | cons c rest =>
      have hc : isDigit c = false := by simpa using hrest
      simp [decimal, hc]
  | cons c digits ih =>
    rw [cons_append, decimal, decimal]
    split
    · exact ih _
    · rfl

theorem dropWhile_isDigit_append (hrest : rest.head?.all (!isDigit ·) = true) (digits : Bytes) :
    (digits ++ rest).dropWhile isDigit = digits.dropWhile isDigit ++ rest := by
  have hnone : rest.dropWhile isDigit = rest := by
    cases rest with
    | nil => rfl
    | cons c rest => exact dropWhile_cons_of_neg (by simpa using hrest)
  rw [dropWhile_append]
  split
  · rename_i hempty
    rw [hnone, List.isEmpty_iff.mp hempty, nil_append]
  · rfl

theorem strtoSigned_suffix (string : Bytes) : (strtoSigned bound string).2.1 <:+ string := by
  rw [strtoSigned, number]
  split
  · exact suffix_refl _
  · exact (dropWhile_suffix _).trans ((sign_suffix _).trans (dropWhile_suffix _))

/-- The number and where it ends do not depend on the type, but only what becomes of it. -/
theorem exists_strtoSigned (string : Bytes) : ∃ (value : Int) (tail : Bytes), ∀ bound : Nat,
    1 ≤ bound → strtoSigned bound string = (max (-(bound : Int)) (min value (bound - 1)), tail,
      decide (value < -(bound : Int)) || decide ((bound : Int) ≤ value)) := by
  rcases hsign : sign (string.dropWhile isSpace) with ⟨negative, digits⟩
  by_cases hdigit : digits.head?.any isDigit = true
  · refine ⟨if negative then -(decimal 0 digits : Int) else decimal 0 digits,
      digits.dropWhile isDigit, fun bound _ ↦ ?_⟩
    rw [strtoSigned, hsign, number, if_neg (by simp [hdigit])]
  refine ⟨0, string, fun bound hbound ↦ ?_⟩
  have hclamp : max (-(bound : Int)) (min 0 (bound - 1)) = 0 := by omega
  have hnegative : ¬ (0 : Int) < -(bound : Int) := by omega
  have hlarge : ¬ (bound : Int) ≤ 0 := by omega
  rw [strtoSigned, hsign, number, if_pos (by simp [hdigit]), hclamp, decide_eq_false hnegative,
    decide_eq_false hlarge]
  rfl

/-- What follows a number and is not a digit makes no difference to it. -/
theorem strtoSigned_append (hb : isSpace b = false) (token : Bytes)
    (hrest : rest.head?.all (!isDigit ·) = true) :
    strtoSigned bound (b :: token ++ rest) = ((strtoSigned bound (b :: token)).1,
      (strtoSigned bound (b :: token)).2.1 ++ rest, (strtoSigned bound (b :: token)).2.2) := by
  have hstart (token : Bytes) : (b :: token).dropWhile isSpace = b :: token :=
    dropWhile_cons_of_neg (by simp [hb])
  have hhead (digits : Bytes) :
      (digits ++ rest).head?.any isDigit = digits.head?.any isDigit := by
    cases digits with
    | nil =>
      cases rest with
      | nil => rfl
      | cons c rest => simpa using hrest
    | cons c digits => rfl
  rw [strtoSigned, strtoSigned, cons_append, hstart, hstart, ← cons_append,
    sign_append, number, number, hhead, decimal_append hrest, dropWhile_isDigit_append hrest]
  split <;> rfl

/-! ## `sscanf` -/

/-- `%s` with a width: the word after leading space, as far as the width goes, and what follows. -/
def scanWord (width : Nat) (string : Bytes) : Option (Bytes × Bytes) :=
  let string := string.dropWhile Bytes.isSpace
  let word := (string.take width).takeWhile (!Bytes.isSpace ·)
  if word.isEmpty then none else some (word, string.drop word.length)

/-- `%llu`. -/
def scanUnsigned (string : Bytes) : Option (Nat × Bytes) :=
  let string := string.dropWhile Bytes.isSpace
  let digits := (sign string).2
  if !(digits.head?.any Bytes.isDigit) then none
  else some (strtoul string, digits.dropWhile Bytes.isDigit)

/-- `%u`, where `ulong` is the smallest number that is too large for an `unsigned long`. -/
def scanUInt (ulong : Nat) (string : Bytes) : Option (Nat × Bytes) :=
  let (negative, digits) := sign (string.dropWhile Bytes.isSpace)
  if !(digits.head?.any Bytes.isDigit) then none
  else
    let value := decimal 0 digits
    let value :=
      if ulong ≤ value then ulong - 1 else if negative then (ulong - value) % ulong else value
    some (value % 2 ^ 32, digits.dropWhile Bytes.isDigit)

theorem scanWord_space (width : Nat) (string : Bytes) :
    scanWord width (32 :: string) = scanWord width string := by
  rw [scanWord, scanWord, dropWhile_cons_of_pos (by decide)]

theorem scanUInt_space (ulong : Nat) (string : Bytes) :
    scanUInt ulong (32 :: string) = scanUInt ulong string := by
  rw [scanUInt, scanUInt, dropWhile_cons_of_pos (by decide)]

/-- A word that is not too long is read as a whole. -/
theorem scanWord_word (hne : word ≠ []) (hword : ∀ b ∈ word, isSpace b = false)
    (hwidth : word.length ≤ width) (hrest : rest.head?.all isSpace = true) :
    scanWord width (word ++ rest) = some (word, rest) := by
  have hstart : (word ++ rest).dropWhile isSpace = word ++ rest := by
    obtain ⟨b, word, rfl⟩ := exists_cons_of_ne_nil hne
    exact dropWhile_cons_of_neg (by simp [hword b (mem_cons_self ..)])
  have hall : ∀ b ∈ word, (!isSpace b) = true := fun b hb ↦ by simp [hword b hb]
  have htake : ((word ++ rest).take width).takeWhile (!isSpace ·) = word := by
    rw [take_append, take_of_length_le hwidth, takeWhile_append_of_pos hall]
    cases rest with
    | nil => simp
    | cons b rest =>
      have hb : isSpace b = true := by simpa using hrest
      cases width - word.length with
      | zero => simp
      | succ n => simp [hb]
  rw [scanWord, hstart, htake, if_neg (by simpa using hne), drop_left]

/-- There is no space in a word, it has at most the given width, and it is part of the string. -/
theorem of_scanWord (h : scanWord width string = some (word, rest)) :
    word ≠ [] ∧ (∀ b ∈ word, isSpace b = false) ∧ word.length ≤ width ∧ word ⊆ string := by
  rw [scanWord] at h
  split at h
  · cases h
  rename_i hne
  obtain ⟨rfl, -⟩ := Prod.mk.inj (Option.some.inj h)
  have hsublist := takeWhile_sublist (l := (string.dropWhile isSpace).take width)
    (!isSpace ·)
  refine ⟨by simpa using hne, fun b hb ↦ by simpa using mem_takeWhile_imp hb, ?_, ?_⟩
  · exact hsublist.length_le.trans (length_take_le ..)
  · exact List.Subset.trans hsublist.subset
      (List.Subset.trans (take_subset ..) (dropWhile_suffix _).subset)

theorem length_scanWord (h : scanWord width string = some (word, rest)) :
    word.length ≤ string.length := by
  rw [scanWord] at h
  split at h
  · cases h
  obtain ⟨rfl, -⟩ := Prod.mk.inj (Option.some.inj h)
  calc (((string.dropWhile isSpace).take width).takeWhile (!isSpace ·)).length
      ≤ ((string.dropWhile isSpace).take width).length :=
        (takeWhile_sublist _).length_le
    _ ≤ (string.dropWhile isSpace).length := length_take_le' ..
    _ ≤ string.length := length_dropWhile_le ..

theorem length_scanWord_le {word' rest' : Bytes} (hne : word.dropWhile isSpace ≠ [])
    (hb : isSpace b = true) (hstring : string = word ++ b :: rest)
    (h : scanWord width string = some (word', rest')) : word'.length ≤ word.length := by
  have hstart : string.dropWhile isSpace = word.dropWhile isSpace ++ b :: rest := by
    rw [hstring, dropWhile_append, if_neg (by simpa using hne)]
  have hlength (word : Bytes) (width : Nat) :
      (((word ++ b :: rest).take width).takeWhile (!isSpace ·)).length ≤ word.length := by
    induction word generalizing width with
    | nil => cases width <;> simp [hb]
    | cons c word ih =>
      cases width with
      | zero => simp
      | succ width =>
        have := ih width
        rw [cons_append, take_succ_cons, takeWhile_cons]
        split
        · simpa using this
        · simp
  rw [scanWord, hstart] at h
  split at h
  · cases h
  · obtain ⟨rfl, -⟩ := Prod.mk.inj (Option.some.inj h)
    exact Nat.le_trans (hlength _ _) (length_dropWhile_le isSpace word)

end CString
