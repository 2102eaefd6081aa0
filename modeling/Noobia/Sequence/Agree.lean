import Noobia.Lib.Digits
import Noobia.Lib.Int32
import Noobia.Sequence.Service

/-!
# Two ways to define a track

A track can be set by a line of text, `slot interval_ms function bits [args...]`, and by numbers,
with the pattern packed into one of them.  The first is read by a tokenizer with an integer reader
of its own, the second has its pattern unpacked by a loop, and they check what they are given in
different orders.  `set_eq_setNumeric` says that it makes no difference which is used.
-/

open Bytes

namespace Noobia

open List CString

/-! ## Writing a definition down -/

/-- The fixed arguments in the line of text, each after a space. -/
def spaced (arguments : List Int) : Bytes := arguments.flatMap fun n ↦ 32 :: Bytes.ofInt n

/-- A definition as a line of text. -/
def definitionText (slot interval functionId : Int) (pattern : List Bool) (arguments : List Int) :
    Bytes :=
  Bytes.ofInt slot ++ 32 :: (Bytes.ofInt interval ++ 32 :: (Bytes.ofInt functionId ++
    32 :: (pattern.map bitChar ++ spaced arguments)))

/-- A pattern as a number, its first bit highest. -/
def packBits (pattern : List Bool) : Nat :=
  pattern.foldl (fun packed bit ↦ 2 * packed + bit.toNat) 0

/-! ## Reading numbers -/

theorem le_decimal (value : Nat) (digits : Bytes) : value ≤ decimal value digits := by
  induction digits generalizing value with
  | nil => exact Nat.le_refl _
  | cons digit digits ih =>
    rw [decimal]
    split
    · have := ih (value * 10 + (digit.toNat - 48))
      omega
    · exact Nat.le_refl _

/-- Digits are read to the end if their value is in range. -/
theorem parseDigits_eq {negative : Bool} {digits : Bytes}
    (hdigits : ∀ b ∈ digits, isDigit b = true) (value : Nat)
    (hle : decimal value digits ≤ if negative then 2 ^ 31 else 2 ^ 31 - 1) :
    parseDigits negative value digits = some (decimal value digits) := by
  induction digits generalizing value with
  | nil => rfl
  | cons digit digits ih =>
    obtain ⟨hdigit, hdigits⟩ := forall_mem_cons.mp hdigits
    rw [decimal, if_pos hdigit] at hle ⊢
    have hnow := (le_decimal (value * 10 + (digit.toNat - 48)) digits).trans hle
    rw [parseDigits, hdigit, if_neg (by decide)]
    dsimp only
    rw [if_neg (Nat.not_lt.mpr hnow), ih hdigits _ hle]

theorem parseDigits_ofNat {negative : Bool} {n : Nat}
    (hn : n ≤ if negative then 2 ^ 31 else 2 ^ 31 - 1) :
    parseDigits negative 0 (ofNat n) = some n := by
  have hvalue := decimal_ofNat n
  rw [parseDigits_eq (fun b hb ↦ isDigit_of_mem_ofNat hb) 0 (hvalue.symm ▸ hn), hvalue]

/-- **An `int32_t` is read as it was written.** -/
theorem parseInteger_ofInt {n : Int} (hn : IsInt32 n) : parseInteger (ofInt n) = some n := by
  obtain ⟨hlow, hhigh⟩ := hn
  have hne := ofNat_ne_nil n.natAbs
  rw [ofInt]
  split
  · have hdigits : parseDigits true 0 (ofNat n.natAbs) = some n.natAbs :=
      parseDigits_ofNat (by simp; omega)
    obtain ⟨b, digits, hb⟩ := exists_cons_of_ne_nil hne
    rw [hb] at hdigits ⊢
    rw [parseInteger.eq_def]
    simp only [hdigits, Option.map_some, Option.some.injEq]
    omega
  · have hdigits : parseDigits false 0 (ofNat n.natAbs) = some n.natAbs :=
      parseDigits_ofNat (by simp; omega)
    obtain ⟨b, digits, hb⟩ := exists_cons_of_ne_nil hne
    have hb45 : b ≠ 45 := by
      rintro rfl
      exact absurd (isDigit_of_mem_ofNat (hb ▸ mem_cons_self)) (by decide)
    rw [hb] at hdigits ⊢
    have hparse : parseInteger (b :: digits) =
        (parseDigits false 0 (b :: digits)).map fun (n : Nat) ↦ (n : Int) := by
      rw [parseInteger.eq_def]
      split
      · cases ‹_›
      · rename_i heq
        exact absurd (List.cons.inj heq).1 hb45
      · rename_i heq
        exact absurd (List.cons.inj heq).1 hb45
      · rfl
    rw [hparse, hdigits, Option.map_some]
    exact congrArg some (by omega)

theorem parseArguments_of_ne_nil {room : Nat} {text : Bytes} (h : text ≠ []) :
    parseArguments (room + 1) text =
      match parseInteger (tokenAt text).1 with
      | none => .error "arguments must be integers"
      | some value => (parseArguments room (tokenAt text).2).map (value :: ·) := by
  obtain ⟨b, text, rfl⟩ := exists_cons_of_ne_nil h
  rfl

theorem parseArguments_spaced {arguments : List Int} (hint : ∀ n ∈ arguments, IsInt32 n)
    {room : Nat} (hroom : arguments.length ≤ room) :
    parseArguments room (spaced arguments) = .ok arguments := by
  induction arguments generalizing room with
  | nil => cases room <;> rfl
  | cons n arguments ih =>
    obtain ⟨hn, hint⟩ := forall_mem_cons.mp hint
    obtain ⟨room, rfl⟩ : ∃ k, room = k + 1 := ⟨room - 1, by rw [length_cons] at hroom; omega⟩
    have hrest : (spaced arguments).head?.all (· = 32) := by
      cases arguments <;> simp [spaced]
    have hcons : spaced (n :: arguments) = 32 :: (ofInt n ++ spaced arguments) := by
      simp [spaced]
    have htoken : tokenAt (spaced (n :: arguments)) = (ofInt n, spaced arguments) := by
      rw [hcons, tokenAt_space]
      exact tokenAt_word (fun _ ↦ ne_space_of_mem_ofInt) (ofInt_ne_nil n) hrest
    rw [parseArguments_of_ne_nil (by simp [hcons]), htoken]
    simp only [parseInteger_ofInt hn, ih hint (show arguments.length ≤ room by simpa using hroom)]
    rfl

/-! ## Reading patterns -/

theorem packBits_append (pattern : List Bool) (bit : Bool) :
    packBits (pattern ++ [bit]) = 2 * packBits pattern + bit.toNat := by
  rw [packBits, packBits, foldl_append, foldl_cons, foldl_nil]

/-- The bits of a packed pattern, from the highest. -/
theorem testBit_packBits (pattern : List Bool) (index : Nat) (h : index < pattern.length) :
    (packBits pattern).testBit (pattern.length - index - 1) = pattern[index] := by
  induction pattern using List.reverseRecOn with
  | nil => simp at h
  | append_singleton pattern bit ih =>
    rw [packBits_append]
    rw [length_append, length_singleton] at h ⊢
    by_cases hlast : index = pattern.length
    · subst hlast
      cases bit <;> simp [Nat.testBit_zero]
    have hlt : index < pattern.length := by omega
    have hpos : pattern.length + 1 - index - 1 = pattern.length - index - 1 + 1 := by omega
    have hhalf : (2 * packBits pattern + bit.toNat) / 2 = packBits pattern := by
      have := bit.toNat_lt
      omega
    rw [hpos, Nat.testBit_succ, hhalf, ih hlt, getElem_append_left hlt]

/-- **A packed pattern is unpacked as it was**, whatever stands above it. -/
theorem unpackBits_eq {pattern : List Bool} {packed : Nat}
    (h : packed % 2 ^ pattern.length = packBits pattern) :
    unpackBits packed pattern.length = pattern.map bitChar := by
  refine ext_getElem (by simp [unpackBits]) fun index h1 h2 ↦ ?_
  have hlt : index < pattern.length := by simpa using h2
  have hbit : packed.testBit (pattern.length - index - 1) = pattern[index] := by
    rw [← testBit_packBits pattern index hlt, ← h, Nat.testBit_mod_two_pow,
      decide_eq_true (show pattern.length - index - 1 < pattern.length by omega), Bool.true_and]
  simp [unpackBits, hbit]

/-- The same for the signed number a pattern of at most 32 bits is passed in. -/
theorem unpackBits_int {pattern : List Bool} {packed : Int} (hlength : pattern.length ≤ 32)
    (h : packed % 2 ^ pattern.length = packBits pattern) :
    unpackBits (packed % 2 ^ 32).toNat pattern.length = pattern.map bitChar := by
  refine unpackBits_eq ?_
  have hdvd : (2 : Int) ^ pattern.length ∣ 2 ^ 32 := pow_dvd_pow 2 hlength
  have hmod : packed % 2 ^ 32 % 2 ^ pattern.length = packBits pattern := by
    rw [Int.emod_emod_of_dvd packed hdvd, h]
  have hpos : 0 ≤ packed % 2 ^ 32 := Int.emod_nonneg packed (by decide)
  obtain ⟨word, hword⟩ := Int.eq_ofNat_of_zero_le hpos
  rw [hword] at hmod ⊢
  exact_mod_cast hmod

/-! ## The two definitions -/

section

variable {pattern : List Bool} {arguments : List Int}

theorem tokenAt_definitionText (slot interval functionId : Int) (arguments : List Int)
    (hpattern : pattern ≠ []) :
    tokenAt (definitionText slot interval functionId pattern arguments) =
        (ofInt slot, 32 :: (ofInt interval ++ 32 :: (ofInt functionId ++
          32 :: (pattern.map bitChar ++ spaced arguments)))) ∧
      (∀ n rest, tokenAt (32 :: (ofInt n ++ 32 :: rest)) = (ofInt n, 32 :: rest)) ∧
      tokenAt (32 :: (pattern.map bitChar ++ spaced arguments)) =
        (pattern.map bitChar, spaced arguments) := by
  have hword : ∀ n rest, tokenAt (ofInt n ++ 32 :: rest) = (ofInt n, 32 :: rest) :=
    fun n rest ↦
      tokenAt_word (fun _ ↦ ne_space_of_mem_ofInt) (ofInt_ne_nil n) (by simp)
  refine ⟨hword _ _, fun n rest ↦ (tokenAt_space _).trans (hword n rest), ?_⟩
  rw [tokenAt_space]
  refine tokenAt_word (fun b hb ↦ ?_) (by simpa using hpattern)
    (by cases arguments <;> simp [spaced])
  obtain ⟨bit, -, rfl⟩ := mem_map.mp hb
  cases bit <;> decide

theorem all_bitChar (pattern : List Bool) :
    ((pattern.map bitChar).all fun bit ↦ bit = 48 || bit = 49) = true := by
  simp [bitChar]

/-- The two channels: `set` configures its own twice, first without arguments. -/
theorem configure_eq (id : Nat) (hcount : arguments.length ≤ 7) :
    NoobProgramChannel.configure {} id arguments [] =
        some { functionId := id, arguments := arguments } ∧
      ((NoobProgramChannel.configure {} id [] []).getD {}).configure id arguments [] =
        some { functionId := id, arguments := arguments } := by
  have hle : ¬ (NoobProgramChannel.maxArguments < arguments.length ∨
      255 < ([] : Bytes).length) := by
    simp [NoobProgramChannel.maxArguments]
    omega
  constructor
  · rw [NoobProgramChannel.configure, if_neg hle]
    rfl
  · rw [NoobProgramChannel.configure, if_neg hle]
    rfl

/-- **Text and packed definitions agree.**  Whatever the sequencer, the slot, the interval and the
number of the function, if that is no function on text alone, a pattern of 1 to 32 bits and at most
seven arguments: the line of text and the numbers are both accepted or both refused, and leave the
sequencer in the same state.  What stands above the pattern in its number does not matter. -/
theorem set_eq_setNumeric (s : Sequencer) {slot interval functionId : Int} (hslot : IsInt32 slot)
    (hinterval : IsInt32 interval) (hid : IsInt32 functionId)
    (hnumbers : ∀ entry, s.find functionId.toNat = some entry → entry.acceptsNumbers = true)
    (hpattern : 1 ≤ pattern.length ∧ pattern.length ≤ 32) {packed : Int}
    (hpacked : packed % 2 ^ pattern.length = packBits pattern) (hcount : arguments.length ≤ 7)
    (harguments : ∀ n ∈ arguments, IsInt32 n) :
    let text := s.set (definitionText slot interval functionId pattern arguments)
    let numbers := s.setNumeric
      (slot :: interval :: functionId :: (pattern.length : Int) :: packed :: arguments) [] true
    text.1.ok = numbers.1.ok ∧ text.2 = numbers.2 := by
  intro text numbers
  have hne : pattern ≠ [] := ne_nil_of_length_pos hpattern.1
  obtain ⟨hfirst, hnumber, hbits⟩ :=
    tokenAt_definitionText slot interval functionId arguments hne
  have hselector : (ofInt functionId).isEmpty = false := by
    simpa using ofInt_ne_nil functionId
  have hempty : (pattern.map bitChar).isEmpty = false := by simpa using hne
  have hlong : ¬ maxBits < (pattern.map bitChar).length := by
    rw [length_map, maxBits]
    omega
  have hselect : s.select (ofInt functionId) =
      if functionId < 0 ∨ 65535 < functionId then .error "function ID must be 0..65535"
      else Sequencer.numericEntry (s.find functionId.toNat) := by
    rw [Sequencer.select, parseInteger_ofInt hid]
  have hfixed : parseArguments maxFixedArguments (spaced arguments) = .ok arguments :=
    parseArguments_spaced harguments hcount
  have hroom : ¬ maxFixedArguments < arguments.length := Nat.not_lt.mpr hcount
  have hbitCount : ¬ ((pattern.length : Int) < 1 ∨ 32 < (pattern.length : Int)) := by omega
  cases hrun : s.running with
  | true => simp [text, numbers, Sequencer.set, Sequencer.setNumeric, hrun]
  | false =>
    simp only [text, numbers, Sequencer.set, Sequencer.setNumeric, hrun, Bool.false_eq_true,
      if_false, hfirst, hnumber, hbits, parseInteger_ofInt hslot, parseInteger_ofInt hinterval,
      Option.bind_some, Option.getD_some, hselector, hempty, hlong, or_self, all_bitChar,
      Bool.not_true, hselect, hfixed, hbitCount]
    cases slot? slot with
    | none => exact ⟨rfl, rfl⟩
    | some slot =>
      by_cases hms : interval < 1 ∨ (maxIntervalMs : Int) < interval
      · simp only [hms, if_true, and_self]
      by_cases hrange : functionId < 0 ∨ 65535 < functionId
      · simp only [hms, hrange, if_true, if_false, NativeResult.fail_ok, and_self]
      simp only [hms, hrange, if_false]
      cases hfind : s.find functionId.toNat with
      | none => simp [Sequencer.setPacked, Sequencer.numericEntry, hfind, hroom]
      | some entry =>
        have hunpack := unpackBits_int hpattern.2 hpacked
        have hcast : ((pattern.length : Int)).toNat = pattern.length := Int.toNat_natCast _
        simp only [Sequencer.setPacked, Sequencer.numericEntry, hfind, hnumbers entry hfind,
          (configure_eq entry.id hcount).1, (configure_eq entry.id hcount).2, hroom, hcast,
          hunpack, if_true, if_false, Bool.not_true, Bool.false_and, Bool.false_eq_true,
          Option.getD_some, length_map, and_self]

/-- Pin 13 blinks `1010`; the number has other bits set above the four of the pattern. -/
theorem set_eq_setNumeric_blinking :
    let s : Sequencer := { nativeRegistry := [⟨1, ofAscii "PIN_WRITE", true, false⟩] }
    (s.set (ofAscii "0 250 1 1010 13")).2 =
      (s.setNumeric [0, 250, 1, 4, 0b01011010, 13] [] true).2 := by
  intro s
  have hnumbers : ∀ entry, s.find (Int.toNat 1) = some entry → entry.acceptsNumbers = true := by
    rintro entry h
    obtain rfl := Option.some.inj h
    rfl
  have hpacked : (0b01011010 : Int) % 2 ^ [true, false, true, false].length =
      packBits [true, false, true, false] := by decide
  have harguments : ∀ n ∈ [13], IsInt32 n := by decide
  exact (set_eq_setNumeric s (show IsInt32 0 by decide) (show IsInt32 250 by decide)
    (show IsInt32 1 by decide) hnumbers (by decide) hpacked (by decide) harguments).2

end

end Noobia
