import Noobia.Esp.Calls

/-!
# The grammar of `CALL_MIXED`

The arguments of `CALL_MIXED` are a selector, up to eight numbers and a quoted text, with spaces
between them.  `MixedLayout.render` writes such a line down and `Means` says what it means;
`mixed_calls_meant` says that the dispatcher makes exactly the calls that lines mean, and that it
makes none on any other line without a NUL byte.

A selector is looked up as a name first.  So a function whose number is another one's name is not to
be reached by its number, and the grammar says so; `shadowed_number` is such a registry.
-/

open Bytes

namespace Noobia

open List CString

variable {W : Type}

namespace CommandDispatcher

/-! ## The dispatcher's parser -/

/-- What `callMixedNative` makes of the text after the selector: the arguments, or what is wrong
with them. -/
def mixedArguments (text : Bytes) : Except String (List Int × Bytes) :=
  match mixedNumbers NoobVm.registerCount text with
  | none => .error "expected signed 32-bit number"
  | some (_, []) => .error "expected quoted ASCII string; use \"\" for empty"
  | some (numbers, _ :: rest) =>
  match quoted [] rest with
  | .error error => .error error
  | .ok (ascii, closing) =>
    if !(closing.any fun rest ↦ (rest.dropWhile (· = 32)).isEmpty) then
      .error "unterminated string or trailing arguments"
    else .ok (numbers, ascii)

variable {entry : NativeEntry (Script W NoobVm VmCall)} {request : NoobRequest} {text : Bytes}

/-- What `callMixedNative` does with a function it has found. -/
theorem callMixedNative_eq (d : CommandDispatcher W) {selector : Bytes}
    (m : Machine W) (hrequest : tokenAt request.arguments = (selector, text))
    (hentry : d.mixedEntry selector = some entry) :
    d.callMixedNative request m =
      match mixedArguments text with
      | .error error => (NoobProtocol.fail request.requestId "BAD_ARGUMENT" error, m)
      | .ok (numbers, ascii) =>
        ((m.invoke (NativeRegistry.callMixed entry numbers ascii)).1.reply request.requestId,
          (m.invoke (NativeRegistry.callMixed entry numbers ascii)).2) := by
  rw [callMixedNative, hrequest]
  dsimp only
  rw [hentry, mixedArguments]
  rcases mixedNumbers NoobVm.registerCount text with _ | ⟨numbers, _ | ⟨quote, rest⟩⟩
  · rfl
  · rfl
  dsimp only
  rcases quoted [] rest with error | ⟨ascii, closing⟩
  · rfl
  · dsimp only
    split <;> rfl

variable {numbers : List Int} {ascii : Bytes}

theorem mixedArguments_iff :
    mixedArguments text = .ok (numbers, ascii) ↔ ∃ quote rest rest',
      mixedNumbers NoobVm.registerCount text = some (numbers, quote :: rest) ∧
        quoted [] rest = .ok (ascii, some rest') ∧ rest'.dropWhile (· = 32) = [] := by
  rw [mixedArguments]
  constructor
  · intro h
    split at h
    · cases h
    · cases h
    rename_i numbers' quote rest hnumbers
    split at h
    · cases h
    rename_i ascii' closing hquoted
    split at h
    · cases h
    rename_i hclosing
    obtain ⟨rfl, rfl⟩ := Prod.mk.inj (Except.ok.inj h)
    obtain _ | rest' := closing
    · simp at hclosing
    · exact ⟨quote, rest, rest', hnumbers, hquoted, by simpa using hclosing⟩
  · rintro ⟨quote, rest, rest', hnumbers, hquoted, hempty⟩
    simp [hnumbers, hquoted, hempty]

theorem mixedArguments_space (text : Bytes) :
    mixedArguments (32 :: text) = mixedArguments text := by
  have hnumbers : mixedNumbers NoobVm.registerCount (32 :: text) =
      mixedNumbers NoobVm.registerCount text := by
    rw [mixedNumbers.eq_def, mixedNumbers.eq_def NoobVm.registerCount text,
      dropWhile_cons_of_pos (by decide)]
  rw [mixedArguments, mixedArguments, hnumbers]

/-! ## Spelling -/

variable {word : Bytes} {n : Int} {bound : Nat}

/-- What `strtol` says of a number of 32 bits. -/
theorem strtoSigned_of_int32 (hbound : 2 ^ 31 ≤ bound) (h : Spells word n) (hn : IsInt32 n) :
    strtoSigned bound word = (n, [], false) := by
  obtain ⟨hlow, hhigh⟩ := hn
  have hbound' : (2 : Int) ^ 31 ≤ bound := by exact_mod_cast hbound
  exact strtoSigned_of_spells h (by omega) (by omega)

/-- A word without a NUL byte that is read as a number to where the dispatcher sees its end. -/
theorem spells_of_ends {tail : Bytes} (hzero : 0 ∉ word) (hne : word ≠ [])
    (h : strtoSigned bound word = (n, tail, false)) (hends : ends tail = true) : Spells word n := by
  have htail : tail <:+ word := by
    have hsuffix : (strtoSigned bound word).2.1 <:+ word := strtoSigned_suffix _ word
    rwa [h] at hsuffix
  cases tail with
  | nil => exact spells_of_strtoSigned h hne
  | cons c tail =>
    obtain rfl : c = 0 := of_decide_eq_true hends
    exact absurd (htail.subset (mem_cons_self ..)) hzero

/-- A number is not empty and does not begin with a quote. -/
theorem exists_of_spells (h : Spells word n) : ∃ c tail, word = c :: tail ∧ c ≠ 34 := by
  have hstrto : strtoSigned (n.natAbs + 1) word = (n, [], false) :=
    strtoSigned_of_spells h (by omega) (by omega)
  cases word with
  | nil =>
    obtain ⟨blank, word, hnil, -, hword⟩ := h
    obtain ⟨-, rfl⟩ : blank = [] ∧ word = [] := by simpa using hnil
    cases hword
  | cons c tail =>
    refine ⟨c, tail, rfl, ?_⟩
    rintro rfl
    cases (Prod.mk.inj (Prod.mk.inj hstrto).2).1

/-! ## The numbers -/

/-- Words with spaces before them, of which there is one more than it says. -/
def separated (words : List (Nat × Bytes)) : Bytes :=
  words.flatMap fun word ↦ List.replicate (word.1 + 1) 32 ++ word.2

@[simp] theorem separated_nil : separated [] = [] := rfl

theorem separated_cons (word : Nat × Bytes) (words : List (Nat × Bytes)) (rest : Bytes) :
    separated (word :: words) ++ rest =
      List.replicate (word.1 + 1) 32 ++ (word.2 ++ (separated words ++ rest)) := by
  simp only [separated, flatMap_cons, append_assoc]

/-- Words that are numbers of 32 bits. -/
def Numbers (words : List (Nat × Bytes)) (numbers : List Int) : Prop :=
  List.Forall₂ (fun word n ↦ (∀ b ∈ word.2, b ≠ 32) ∧ Spells word.2 n ∧ IsInt32 n) words numbers

theorem dropWhile_spaces (n : Nat) (text : Bytes) :
    (List.replicate n 32 ++ text).dropWhile (· = 32) = text.dropWhile (· = 32) :=
  dropWhile_append_of_pos fun b hb ↦ by simp [eq_of_mem_replicate hb]

theorem tokenAt_dropWhile (text : Bytes) : tokenAt (text.dropWhile (· = 32)) = tokenAt text := by
  rw [tokenAt, tokenAt, dropWhile_idempotent]

theorem head?_separated (words : List (Nat × Bytes)) (gap : Nat) (rest : Bytes) :
    (separated words ++ (List.replicate (gap + 1) 32 ++ rest)).head?.all (· = 32) = true := by
  cases words with
  | nil | cons word words => rfl

variable {rest : Bytes}

theorem mixedNumbers_word (hword : ∀ b ∈ word, b ≠ 32) (hspells : Spells word n)
    (hn : IsInt32 n) (hrest : rest.head?.all (· = 32) = true) (room spaces : Nat) :
    mixedNumbers (room + 1) (List.replicate spaces 32 ++ (word ++ rest)) =
      (mixedNumbers room rest).map fun (numbers, rest) ↦ (n :: numbers, rest) := by
  obtain ⟨c, tail, rfl, hc⟩ := exists_of_spells hspells
  have hstrto : strtoSigned (2 ^ 63) (c :: tail) = (n, [], false) :=
    strtoSigned_of_int32 (by decide) hspells hn
  have hends : ends [] = true := rfl
  obtain ⟨hlow, hhigh⟩ := hn
  have hlow' : ¬ n < -2 ^ 31 := by omega
  have hhigh' : ¬ 2 ^ 31 - 1 < n := by omega
  rw [mixedNumbers]
  dsimp only
  rw [dropWhile_spaces, cons_append,
    dropWhile_cons_of_neg (by simpa using hword c (mem_cons_self ..)),
    if_neg (by simpa using hc), ← cons_append, tokenAt_word hword (cons_ne_nil c tail) hrest]
  dsimp only
  rw [hstrto]
  dsimp only
  rw [hends, decide_eq_false hlow', decide_eq_false hhigh', if_neg (by simp)]

variable {room : Nat}

/-- **Numbers up to a quote are read.** -/
theorem mixedNumbers_separated {words : List (Nat × Bytes)} (h : Numbers words numbers)
    (hroom : words.length ≤ room) (gap : Nat) (rest : Bytes) :
    mixedNumbers room (separated words ++ (List.replicate (gap + 1) 32 ++ 34 :: rest)) =
      some (numbers, 34 :: rest) := by
  induction h generalizing room with
  | nil =>
    rw [mixedNumbers.eq_def]
    dsimp only
    rw [separated_nil, nil_append, dropWhile_spaces, dropWhile_cons_of_neg (by decide),
      if_pos (by simp)]
  | @cons word n words numbers hword _ ih =>
    obtain ⟨hspace, hspells, hn⟩ := hword
    cases room with
    | zero => cases hroom
    | succ room =>
      rw [separated_cons, mixedNumbers_word hspace hspells hn (head?_separated ..),
        ih (Nat.le_of_succ_le_succ hroom)]
      rfl

theorem mem_tokenAt {b : UInt8} (h : b ∈ (tokenAt text).1) : b ∈ text := by
  obtain ⟨spaces, hsplit, -⟩ := exists_tokenAt text
  rw [hsplit]
  exact mem_append_right _ (mem_append_left _ h)

/-- What is read begins with the quote, or with a number. -/
theorem mixedNumbers_cases (hzero : 0 ∉ text)
    (h : mixedNumbers room text = some (numbers, rest)) :
    (numbers = [] ∧ rest = text.dropWhile (· = 32) ∧ rest.head?.all (· = 34) = true) ∨
      ∃ room' n numbers', room = room' + 1 ∧ numbers = n :: numbers' ∧
        Spells (tokenAt text).1 n ∧ IsInt32 n ∧
        mixedNumbers room' (tokenAt text).2 = some (numbers', rest) := by
  rw [mixedNumbers.eq_def] at h
  dsimp only at h
  split at h
  · rename_i hquote
    obtain ⟨rfl, rfl⟩ := Prod.mk.inj (Option.some.inj h)
    exact .inl ⟨rfl, rfl, hquote⟩
  rename_i hquote
  refine .inr ?_
  have hne : (tokenAt text).1 ≠ [] := by
    intro hnil
    obtain ⟨spaces, htext, -, -, hrest⟩ := exists_tokenAt text
    rw [hrest hnil, hnil] at htext
    rw [htext, dropWhile_spaces] at hquote
    exact hquote rfl
  cases room with
  | zero => cases h
  | succ room =>
    dsimp only at h
    rw [tokenAt_dropWhile] at h
    rcases hstrto : strtoSigned (2 ^ 63) (tokenAt text).1 with ⟨n, tail, range⟩
    rw [hstrto] at h
    dsimp only at h
    split at h
    · cases h
    rename_i hok
    simp only [Bool.or_eq_true, Bool.not_eq_true', decide_eq_true_eq, not_or,
      Bool.not_eq_false, Bool.not_eq_true, Int.not_lt] at hok
    obtain ⟨⟨⟨hends, rfl⟩, hlow⟩, hhigh⟩ := hok
    have hn : IsInt32 n := ⟨hlow, by omega⟩
    obtain ⟨⟨numbers', rest'⟩, hrest, heq⟩ := Option.map_eq_some_iff.mp h
    obtain ⟨rfl, rfl⟩ := Prod.mk.inj heq
    have hspells := spells_of_ends (fun hmem ↦ hzero (mem_tokenAt hmem)) hne hstrto hends
    exact ⟨room, n, numbers', rfl, rfl, hspells, hn, hrest⟩

/-- There is a space before a quote that is not the beginning of the word before it. -/
theorem exists_gap {quote : UInt8} (htext : text.head?.all (· = 32) = true)
    (hrest : quote :: rest = text.dropWhile (· = 32))
    (hquote : (quote :: rest).head?.all (· = 34) = true) :
    ∃ gap, text = List.replicate (gap + 1) 32 ++ 34 :: rest := by
  obtain rfl : quote = 34 := by simpa using hquote
  obtain ⟨spaces, hspaces⟩ := exists_spaces text
  rw [← hrest] at hspaces
  cases spaces with
  | zero =>
    rw [hspaces] at htext
    cases htext
  | succ gap => exact ⟨gap, hspaces⟩

/-- **What is read is numbers up to a quote.** -/
theorem exists_separated {quote : UInt8} (hzero : 0 ∉ text)
    (htext : text.head?.all (· = 32) = true)
    (h : mixedNumbers room text = some (numbers, quote :: rest)) :
    ∃ words gap, text = separated words ++ (List.replicate (gap + 1) 32 ++ 34 :: rest) ∧
      Numbers words numbers ∧ words.length ≤ room := by
  induction room generalizing text numbers with
  | zero =>
    rcases mixedNumbers_cases hzero h with ⟨rfl, hrest, hquote⟩ | ⟨room', n, numbers', hroom, -⟩
    · obtain ⟨gap, rfl⟩ := exists_gap htext hrest hquote
      exact ⟨[], gap, rfl, .nil, Nat.le_refl _⟩
    · cases hroom
  | succ room ih =>
    rcases mixedNumbers_cases hzero h with
      ⟨rfl, hrest, hquote⟩ | ⟨room', n, numbers', hroom, rfl, hspells, hn, hmore⟩
    · obtain ⟨gap, rfl⟩ := exists_gap htext hrest hquote
      exact ⟨[], gap, rfl, .nil, Nat.zero_le _⟩
    obtain rfl := Nat.succ.inj hroom
    obtain ⟨spaces, hsplit, hword, hspace, -⟩ := exists_tokenAt text
    have hzero' : 0 ∉ (tokenAt text).2 := fun hmem ↦
      hzero (hsplit ▸ mem_append_right _ (mem_append_right _ hmem))
    obtain ⟨words, gap, hwords, hnumbers, hlength⟩ := ih hzero' hspace hmore
    cases spaces with
    | zero =>
      -- a word that follows at once would have been part of the one before
      obtain ⟨c, tail, hc, -⟩ := exists_of_spells hspells
      rw [replicate_zero, nil_append, hc, cons_append] at hsplit
      rw [hsplit] at htext
      exact absurd (by simpa using htext) (hword c (by rw [hc]; exact mem_cons_self ..))
    | succ spaces =>
      refine ⟨(spaces, (tokenAt text).1) :: words, gap, ?_, .cons ⟨hword, hspells, hn⟩ hnumbers,
        Nat.succ_le_succ hlength⟩
      rw [separated_cons, ← hwords]
      exact hsplit

/-! ## The text -/

/-- A byte of the text, with a backslash before a quote or a backslash. -/
def escape (c : UInt8) : Bytes := if c = 34 ∨ c = 92 then [92, c] else [c]

theorem quoted_escape (ascii : Bytes) (c : UInt8) (text : Bytes) :
    quoted ascii (escape c ++ text) =
      if NativeRegistry.maxAsciiBytes < (ascii ++ [c]).length then
        .error "ASCII argument too long"
      else quoted (ascii ++ [c]) text := by
  rw [escape]
  split
  · rename_i hc
    rw [cons_append, cons_append, nil_append, quoted, if_neg (by tauto)]
  rename_i hc
  rw [not_or] at hc
  rw [cons_append, nil_append, quoted]
  · exact hc.1
  · exact fun h ↦ absurd h hc.2
  · exact fun _ _ h ↦ absurd h hc.2

/-- **What is read between the quotes is the text whose escaped form stands there.** -/
theorem quoted_iff_escaped {s : Bytes} (hascii : ascii.length ≤ NativeRegistry.maxAsciiBytes) :
    quoted ascii text = .ok (s, some rest) ↔
      ∃ more, s = ascii ++ more ∧ text = more.flatMap escape ++ 34 :: rest ∧
        s.length ≤ NativeRegistry.maxAsciiBytes := by
  constructor
  · intro h
    fun_induction quoted ascii text with
    | case1 | case3 | case4 | case5 | case7 => cases h
    | case2 ascii rest' =>
      obtain ⟨rfl, hrest⟩ := Prod.mk.inj (Except.ok.inj h)
      obtain rfl := Option.some.inj hrest
      exact ⟨[], (append_nil _).symm, rfl, hascii⟩
    | case6 ascii c rest' hc hlimit ih =>
      obtain ⟨more, rfl, rfl, hlength⟩ := ih (by omega) h
      have hescape : escape c = [92, c] := if_pos (by tauto)
      refine ⟨c :: more, by simp, ?_, hlength⟩
      rw [flatMap_cons, hescape]
      rfl
    | case8 ascii c rest' hquote hend hescape hlimit ih =>
      obtain ⟨more, rfl, rfl, hlength⟩ := ih (by omega) h
      have hbackslash : c ≠ 92 := by
        intro hc
        cases hrest : more.flatMap escape ++ 34 :: rest with
        | nil => exact hend hc hrest
        | cons d tail => exact hescape d tail hc hrest
      have hescape : escape c = [c] := if_neg (not_or.mpr ⟨hquote, hbackslash⟩)
      refine ⟨c :: more, by simp, ?_, hlength⟩
      rw [flatMap_cons, hescape]
      rfl
  · rintro ⟨more, rfl, rfl, hlength⟩
    induction more generalizing ascii with
    | nil => simp [quoted]
    | cons c more ih =>
      have hroom : (ascii ++ [c]).length ≤ NativeRegistry.maxAsciiBytes := by
        simp only [length_append, length_cons, length_nil] at hlength ⊢
        omega
      rw [flatMap_cons, append_assoc, quoted_escape, if_neg (by omega),
        ih hroom (by simpa using hlength)]
      simp

/-! ## The function -/

variable (d : CommandDispatcher W)

/-- A word that means a function: its name in any case, or its number where that is not a name. -/
def Selects (word : Bytes) (entry : NativeEntry (Script W NoobVm VmCall)) : Prop :=
  word ≠ [] ∧ (∀ b ∈ word, b ≠ 32) ∧ entry ∈ d.natives.entries ∧
    (word.equalsIgnoreCase entry.name = true ∨
      Spells word entry.id ∧ ∀ other ∈ d.natives.entries, word.equalsIgnoreCase other.name = false)

/-- What the dispatcher takes a word for that is no name. -/
theorem mixedEntry_of_not_name {d : CommandDispatcher W}
    (hother : ∀ other ∈ d.natives.entries, word.equalsIgnoreCase other.name = false) :
    d.mixedEntry word =
      if !word.isEmpty && ends (strtoSigned (2 ^ 31) word).2.1 &&
        decide (0 ≤ (strtoSigned (2 ^ 31) word).1) &&
        decide ((strtoSigned (2 ^ 31) word).1 ≤ 65535) then
        d.natives.find (strtoSigned (2 ^ 31) word).1.toNat else none := by
  have hname : d.natives.findName word = none :=
    find?_eq_none.mpr fun other hmem ↦ by simpa using hother other hmem
  rw [mixedEntry, hname]
  rfl

/-- **The dispatcher finds the function that is meant.** -/
theorem mixedEntry_of_selects {d : CommandDispatcher W} (hbuilt : d.natives.Built)
    (h : d.Selects word entry) : d.mixedEntry word = some entry := by
  obtain ⟨hne, -, hentry, hequals | ⟨hspells, hother⟩⟩ := h
  · rw [mixedEntry, hbuilt.findName_eq_some_iff.mpr ⟨hentry, hequals⟩]
    rfl
  · have hlt := hbuilt.id_lt hentry
    have hsmall : (entry.id : Int) ≤ 65535 := by omega
    rw [mixedEntry_of_not_name hother,
      strtoSigned_of_int32 (Nat.le_refl _) hspells ⟨by omega, by omega⟩,
      if_pos (by simp [hne, hsmall, ends])]
    exact hbuilt.find_eq_some_iff.mpr ⟨hentry, rfl⟩

/-- **And the function it finds is meant.** -/
theorem selects_of_mixedEntry {d : CommandDispatcher W} (hbuilt : d.natives.Built)
    (hzero : 0 ∉ word) (hne : word ≠ []) (hword : ∀ b ∈ word, b ≠ 32)
    (h : d.mixedEntry word = some entry) : d.Selects word entry := by
  cases hname : d.natives.findName word with
  | some named =>
    obtain ⟨hnamed, hequals⟩ := hbuilt.findName_eq_some_iff.mp hname
    rw [mixedEntry, hname] at h
    obtain rfl := Option.some.inj h
    exact ⟨hne, hword, hnamed, .inl hequals⟩
  | none =>
    have hother : ∀ other ∈ d.natives.entries, word.equalsIgnoreCase other.name = false :=
      fun other hmem ↦ by simpa using find?_eq_none.mp hname other hmem
    rw [mixedEntry_of_not_name hother] at h
    split at h
    · rename_i hid
      simp only [Bool.and_eq_true, decide_eq_true_eq] at hid
      obtain ⟨hentry, hentryId⟩ := hbuilt.find_eq_some_iff.mp h
      refine ⟨hne, hword, hentry, .inr ⟨?_, hother⟩⟩
      obtain ⟨value, tail, hstrto⟩ := exists_strtoSigned word
      have hread := hstrto (2 ^ 31) (by decide)
      rw [hread] at hid hentryId
      dsimp only at hid hentryId
      have hvalue : value = entry.id := by omega
      refine spells_of_ends hzero hne (hread.trans ?_) hid.1.1.2
      rw [hvalue, decide_eq_false (by omega), decide_eq_false (by omega)]
      congr 1
      omega
    · cases h

/-! ## The whole line -/

/-- How a line is written: how many spaces there are and where, the words in it, and the text.
There is at least one space before each number and before the text. -/
structure MixedLayout where
  /-- The spaces before the selector. -/
  before : Nat
  /-- The word for the function. -/
  selector : Bytes
  /-- The words for the numbers, with the spaces before them after the first. -/
  numbers : List (Nat × Bytes)
  /-- The spaces before the text after the first. -/
  gap : Nat
  ascii : Bytes
  /-- The spaces after the text. -/
  after : Nat

/-- The line. -/
def MixedLayout.render (layout : MixedLayout) : Bytes :=
  List.replicate layout.before 32 ++ (layout.selector ++
    (separated layout.numbers ++ (List.replicate (layout.gap + 1) 32 ++
      34 :: (layout.ascii.flatMap escape ++ 34 :: List.replicate layout.after 32))))

/-- What a line means: a call of a registered function with at most eight numbers of 32 bits and a
printable text of at most 255 bytes. -/
structure Means (layout : MixedLayout) (call : NativeCall) : Prop where
  selector : ∃ entry, d.Selects layout.selector entry ∧ call.id = entry.id ∧ call.name = entry.name
  numbers : Numbers layout.numbers call.arguments
  room : layout.numbers.length ≤ NoobVm.registerCount
  ascii : call.ascii = layout.ascii
  /-- It is printable and not too long. -/
  admits : NativeRegistry.Admits layout.ascii

theorem tokenAt_spaces (spaces : Nat) (text : Bytes) :
    tokenAt (List.replicate spaces 32 ++ text) = tokenAt text := by
  rw [tokenAt, tokenAt, dropWhile_spaces]

variable {layout : MixedLayout} {call : NativeCall}

theorem mixedArguments_render
    (h : d.Means layout call) :
    ∃ rest, tokenAt layout.render = (layout.selector, rest) ∧
      mixedArguments rest = .ok (call.arguments, call.ascii) := by
  obtain ⟨⟨entry, ⟨hne, hword, -⟩, -⟩, hnumbers, hroom, hascii, hadmits⟩ := h
  refine ⟨_, (tokenAt_spaces ..).trans (tokenAt_word hword hne (head?_separated ..)), ?_⟩
  rw [mixedArguments_iff]
  refine ⟨34, _, List.replicate layout.after 32, mixedNumbers_separated hnumbers hroom _ _,
    (quoted_iff_escaped (Nat.zero_le _)).mpr ⟨_, (nil_append _).symm, ?_, ?_⟩, ?_⟩
  · rw [hascii]
  · rw [hascii]
    exact hadmits.1
  · have hspaces := dropWhile_spaces layout.after []
    rwa [append_nil] at hspaces

theorem exists_render {d : CommandDispatcher W} (hbuilt : d.natives.Built) (hzero : 0 ∉ text)
    (hentry : d.mixedEntry (tokenAt text).1 = some entry)
    (harguments : mixedArguments (tokenAt text).2 = .ok (numbers, ascii))
    (hadmits : NativeRegistry.Admits ascii) :
    ∃ layout : MixedLayout, layout.render = text ∧
      d.Means layout ⟨entry.id, entry.name, numbers, ascii⟩ := by
  obtain ⟨before, htext, hword, hspace, hnil⟩ := exists_tokenAt text
  have hne : (tokenAt text).1 ≠ [] := by
    intro hempty
    rw [hnil hempty] at harguments
    cases harguments
  obtain ⟨quote, rest, rest', hnumbers, hquoted, hafter⟩ := mixedArguments_iff.mp harguments
  have hzero' : 0 ∉ (tokenAt text).2 := fun hmem ↦
    hzero (htext ▸ mem_append_right _ (mem_append_right _ hmem))
  obtain ⟨words, gap, hwords, hmeans, hroom⟩ := exists_separated hzero' hspace hnumbers
  obtain ⟨more, hmore, rfl, -⟩ := (quoted_iff_escaped (Nat.zero_le _)).mp hquoted
  obtain rfl : ascii = more := hmore
  obtain ⟨after, hspaces⟩ := exists_spaces rest'
  rw [hafter, append_nil] at hspaces
  refine ⟨⟨before, (tokenAt text).1, words, gap, ascii, after⟩, ?_,
    ⟨entry, selects_of_mixedEntry hbuilt (fun hmem ↦ hzero (mem_tokenAt hmem)) hne hword hentry,
      rfl, rfl⟩, hmeans, hroom, rfl, hadmits⟩
  rw [hspaces] at hwords
  rw [hwords] at htext
  exact htext.symm

/-! ## What is called -/

theorem mixedEntry_recorded (word : Bytes) :
    d.recorded.mixedEntry word = (d.mixedEntry word).map NativeEntry.recorded := by
  rw [mixedEntry, mixedEntry, findName_recorded]
  cases d.natives.findName word with
  | some entry => rfl
  | none =>
    rw [Option.map_none, Option.orElse_none, Option.orElse_none]
    dsimp only
    split
    · exact d.find_recorded _
    · rfl

theorem callMixedNative_of_none (m : Machine W)
    (h : d.mixedEntry (tokenAt request.arguments).1 = none) :
    d.callMixedNative request m = (NoobProtocol.fail request.requestId "NO_FUNCTION"
      (tokenAt request.arguments).1.render, m) := by
  rw [callMixedNative]
  dsimp only
  rw [h]

/-- **The record changes nothing**: without it, the reply and the machine are the same. -/
theorem callMixedNative_forget (request : NoobRequest) (m : Machine (Recorded W)) :
    (d.recorded.callMixedNative request m).1 = (d.callMixedNative request m.forget).1 ∧
      (d.recorded.callMixedNative request m).2.forget = (d.callMixedNative request m.forget).2 := by
  have hrecorded := d.mixedEntry_recorded (tokenAt request.arguments).1
  cases hentry : d.mixedEntry (tokenAt request.arguments).1 with
  | none =>
    rw [hentry, Option.map_none] at hrecorded
    rw [callMixedNative_of_none _ _ hentry, callMixedNative_of_none _ _ hrecorded]
    exact ⟨rfl, rfl⟩
  | some entry =>
    rw [hentry, Option.map_some] at hrecorded
    rw [callMixedNative_eq _ _ Prod.mk.eta.symm hentry,
      callMixedNative_eq _ _ Prod.mk.eta.symm hrecorded]
    cases mixedArguments (tokenAt request.arguments).2 with
    | error error => exact ⟨rfl, rfl⟩
    | ok arguments =>
      obtain ⟨hreply, hmachine, -⟩ :=
        Machine.invoke_recorded entry arguments.1 arguments.2 m
      exact ⟨congrArg (NativeResult.reply request.requestId) hreply, hmachine⟩

/-- A line that means a call makes the dispatcher call the function once. -/
theorem calls_of_means {d : CommandDispatcher W} (hbuilt : d.natives.Built)
    (hrender : layout.render = request.arguments) (hmeans : d.Means layout call)
    (m : Machine (Recorded W)) :
    (d.recorded.callMixedNative request m).2.calls = m.calls ++ [call] := by
  obtain ⟨rest, htoken, harguments⟩ := d.mixedArguments_render hmeans
  obtain ⟨⟨entry, hselects, hid, hname⟩, -, -, hascii, hadmits⟩ := hmeans
  have hentry := mixedEntry_of_selects hbuilt hselects
  have hrecorded := d.mixedEntry_recorded layout.selector
  rw [hentry, Option.map_some] at hrecorded
  rw [hrender] at htoken
  rw [callMixedNative_eq _ _ htoken hrecorded, harguments]
  refine (Machine.invoke_recorded _ _ _ _).2.2.trans ?_
  rw [hascii, if_pos hadmits, ← hascii, ← hid, ← hname]

theorem calls_of_no_means {d : CommandDispatcher W} (hbuilt : d.natives.Built)
    (hzero : 0 ∉ request.arguments)
    (h : ∀ (layout : MixedLayout) (call : NativeCall), layout.render = request.arguments →
      ¬ d.Means layout call) (m : Machine (Recorded W)) :
    (d.recorded.callMixedNative request m).2.calls = m.calls := by
  have hrecorded := d.mixedEntry_recorded (tokenAt request.arguments).1
  cases hentry : d.mixedEntry (tokenAt request.arguments).1 with
  | none =>
    rw [hentry, Option.map_none] at hrecorded
    rw [callMixedNative_of_none _ _ hrecorded]
  | some entry =>
    rw [hentry, Option.map_some] at hrecorded
    rw [callMixedNative_eq _ _ Prod.mk.eta.symm hrecorded]
    rcases harguments : mixedArguments (tokenAt request.arguments).2 with error | ⟨numbers, ascii⟩
    · rfl
    refine (Machine.invoke_recorded _ _ _ _).2.2.trans (if_neg fun hadmits ↦ ?_)
    obtain ⟨layout, hrender, hmeans⟩ := exists_render hbuilt hzero hentry harguments hadmits
    exact h layout _ hrender hmeans

/-- **The lines `CALL_MIXED` obeys**: a line that means a call makes the dispatcher make that call,
once; and a line that means none, and has no NUL byte in it, makes it call nothing. -/
theorem mixed_calls_meant {d : CommandDispatcher W} (hbuilt : d.natives.Built)
    (request : NoobRequest) (m : Machine (Recorded W)) :
    (∀ (layout : MixedLayout) (call : NativeCall), layout.render = request.arguments →
        d.Means layout call →
        (d.recorded.callMixedNative request m).2.calls = m.calls ++ [call]) ∧
      (0 ∉ request.arguments →
        (∀ (layout : MixedLayout) (call : NativeCall), layout.render = request.arguments →
          ¬ d.Means layout call) →
        (d.recorded.callMixedNative request m).2.calls = m.calls) :=
  ⟨fun _ _ hrender hmeans ↦ calls_of_means hbuilt hrender hmeans m,
    fun hzero h ↦ calls_of_no_means hbuilt hzero h m⟩

/-- A Noob with one function, number 99, for numbers and a text. -/
def mixer : CommandDispatcher Unit where
  noobName := "noob"
  firmwareVersion := "1"
  natives := (NativeRegistry.addMixed {} 99 (some (Bytes.ofAscii "MIX"))
    (some fun _ _ ↦ pure ⟨true, 0, "", .empty⟩)).2
  capabilities := []
  lifecycle := none

/-- The line ` mix  7 "a\"b"`. -/
def mixedLayout : MixedLayout :=
  ⟨1, Bytes.ofAscii "mix", [(1, Bytes.ofAscii "7")], 0, Bytes.ofAscii "a\"b", 0⟩

/-- It makes the one call it means. -/
theorem mixed_calls_meant_mix :
    (mixer.recorded.callMixedNative
        ⟨Bytes.ofAscii "1", Bytes.ofAscii "CALL_MIXED", mixedLayout.render⟩
        (.init ((), []))).2.calls =
      [⟨99, Bytes.ofAscii "MIX", [7], Bytes.ofAscii "a\"b"⟩] := by
  have hbuilt : mixer.natives.Built := .register .empty (by decide) _ _
  have hspells : CString.Spells (ofAscii "7") 7 :=
    ⟨[], ofAscii "7", rfl, by simp, by decide⟩
  refine (mixed_calls_meant hbuilt _ _).1 mixedLayout ⟨99, ofAscii "MIX", [7], _⟩ rfl
    ⟨⟨_, ⟨by decide, by decide, mem_singleton_self _, .inl (by decide)⟩, rfl, rfl⟩,
      .cons ⟨by decide, hspells, by decide⟩ .nil, by decide, rfl, by decide, by decide⟩

/-- A Noob with a function of number 7 whose name is 8, and a function of number 8. -/
def shadowed : CommandDispatcher Unit where
  noobName := "noob"
  firmwareVersion := "1"
  natives :=
    ((NativeRegistry.addMixed {} 7 (some (Bytes.ofAscii "8"))
      (some fun _ _ ↦ pure ⟨true, 0, "", .empty⟩)).2.addMixed 8 (some (Bytes.ofAscii "LAMP"))
      (some fun _ _ ↦ pure ⟨true, 0, "", .empty⟩)).2
  capabilities := []
  lifecycle := none

/-- Function 8 is registered, and a line with its number calls function 7. -/
theorem shadowed_number :
    shadowed.natives.Built ∧
      (shadowed.natives.find 8).map NativeEntry.name = some (Bytes.ofAscii "LAMP") ∧
      (shadowed.recorded.callMixedNative
          ⟨Bytes.ofAscii "1", Bytes.ofAscii "CALL_MIXED", Bytes.ofNat 8 ++ Bytes.ofAscii " \"\""⟩
          (.init ((), []))).2.calls =
        [⟨7, Bytes.ofAscii "8", [], []⟩] :=
  ⟨.register (.register .empty (by decide) _ _) (by decide) _ _, by decide, by decide⟩

end CommandDispatcher

end Noobia
